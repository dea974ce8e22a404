import Mathlib.Data.List.Chain
import Lnpl.Protocol.Equiv.Decisions
import Lnpl.Protocol.Lifecycle

/-!
# Histories of tasks

`report_cases` says what a report does to the tasks: an open task for which it has a landing is
taken up and moved there, and otherwise a submitted task may be taken up.  A history stays a path
in the table iff the report keeps to the table (`lawful_step_iff`), so the histories of a run are
paths iff all its reports do (`lifecycle_iff`); what is answered with a result has made a history
longer, so that no report can be repeated.
-/

namespace Lnpl.Protocol

open Lnpl.Lib Lnpl.Lib.Py

variable {setup : Setup} {s t : Server} {request params : Fields} {task : Task}

/-! ### Moves -/

/-- A task that is taken up and moved. -/
def Task.moved (task : Task) (state : TaskState) (result : Value) : Task :=
  { task.start with
    state := state
    history := task.start.history ++ [state]
    result := result }

@[simp] theorem moved_id (task : Task) (state : TaskState) (result : Value) :
    (task.moved state result).id = task.id := start_id task

theorem setTask_setTask (s : Server) {task task' : Task} (h : task'.id = task.id) :
    ((s.setTask task).setTask task').tasks = (s.setTask task').tasks := by
  show (s.tasks.map _).map _ = s.tasks.map _
  rw [List.map_map]
  apply List.map_congr_left
  intro old _
  show (if (if old.id = task.id then task else old).id = task'.id then task'
    else if old.id = task.id then task else old) = if old.id = task'.id then task' else old
  by_cases hid : old.id = task.id
  · rw [if_pos hid, if_pos h.symm, if_pos (hid.trans h.symm)]
  · rw [if_neg hid]

variable {state : TaskState} {result : Value} {after : Task}

variable {value : Value} {old : Task}

theorem finish_moved (s : Server) (task : Task) (result : Value)
    (hstate : TaskState.of? value = some state) (hopen : task.state.terminal = false) :
    s.finish task.start value result =
      (s.setTask (task.moved state result), .ok (task.moved state result)) := by
  have hstart : task.start.state.terminal = false := (start_terminal task).trans hopen
  unfold Server.finish Task.transition
  rw [hstate]
  simp only [hstart, Bool.false_eq_true, if_false]
  rfl

/-- What a report on a task does to the tasks, and what it is answered. -/
inductive ReportMove (setup : Setup) (s : Server) (task : Task) (params : Fields) :
    Server × Except Raised Value → Prop where
  /-- It moves the task. -/
  | moved (state : TaskState) (result : Value) (t : Server) (outcome : Except Raised Value)
      (hopen : task.state.terminal = false)
      (hlanding : s.landing setup task params = some state)
      (htasks : t.tasks = (s.setTask (task.moved state result)).tasks) :
      ReportMove setup s task params (t, outcome)
  /-- It has no landing, or the task is terminal. -/
  | stays (t : Server) (e : Raised)
      (hlanding : task.state.terminal = false → s.landing setup task params = none)
      (htasks : t.tasks = s.tasks ∨ t.tasks = (s.setTask task.start).tasks) :
      ReportMove setup s task params (t, .error e)

/-- A task that is finished: it moves, unless it is terminal. -/
theorem ReportMove.of_finish {u : Server} {f : Except Raised Task → Except Raised Value}
    (hf : ∀ e, ∃ e', f (.error e) = .error e') (hlanding : s.landing setup task params = some state)
    (hstate : TaskState.of? value = some state) (hu : u.tasks = (s.setTask task.start).tasks) :
    ReportMove setup s task params
      ((u.finish task.start value result).1, f (u.finish task.start value result).2) := by
  cases hterminal : task.state.terminal with
  | false =>
    rw [finish_moved u task result hstate hterminal]
    refine .moved state result _ _ hterminal hlanding ?_
    rw [← setTask_setTask s ((moved_id task state result).trans (start_id task).symm)]
    show u.tasks.map _ = (s.setTask task.start).tasks.map _
    rw [hu]
  | true =>
    obtain ⟨text, hfinish⟩ := finish_terminal (s := u) task.start result hstate
      ((start_terminal task).trans hterminal)
    rw [hfinish]
    obtain ⟨e, he⟩ := hf _
    rw [he]
    refine .stays _ _ ?_ (.inr hu)
    rw [hterminal]
    exact nofun

/-- A decision on a pending proposal. -/
theorem reportMove_of_decidePending {payload : Fields} {p : Proposal} (approved : Bool)
    (hlanding : s.landing setup task params =
      if approved then (mergedDocument setup s.doc p.nodes).toOption.map fun _ => .completed
      else some .failed) :
    ReportMove setup s task params (s.decidePending setup task payload
      (field payload "proposal_id") p approved) := by
  unfold Server.decidePending
  cases approved with
  | true =>
    rw [if_pos rfl] at hlanding
    rw [if_pos rfl]
    unfold Server.apply
    rw [show (s.setTask task.start).doc = s.doc from rfl]
    cases hmerged : mergedDocument setup s.doc p.nodes with
    | error e =>
      rw [hmerged] at hlanding
      exact .stays _ _ (fun _ => hlanding) (.inr rfl)
    | ok doc =>
      rw [hmerged] at hlanding
      exact ReportMove.of_finish (f := fun outcome => outcome.map Task.toDict)
        (fun e => ⟨e, rfl⟩) hlanding of?_completed rfl
  | false =>
    rw [if_neg Bool.false_ne_true] at hlanding
    rw [if_neg Bool.false_ne_true]
    exact ReportMove.of_finish
      (f := fun outcome => do
        let _ ← outcome
        .error (.rpc {
          type := .proposalRejected
          message := (field payload "reason").orElse (.str "proposal rejected")
          details := [("proposal_id", field payload "proposal_id")] }))
      (fun e => ⟨e, rfl⟩) hlanding of?_failed rfl

/-- A decision. -/
theorem reportMove_of_decide {payload : Value}
    (hpayload : (field params "payload").orElse (.dict []) = payload)
    (hdecides : payload.containsText "proposal_id" = .ok true) :
    ReportMove setup s task params (s.decide setup task payload) := by
  unfold Server.decide
  cases payload with
  | dict payload =>
    have hlanding : s.landing setup task params = s.verdict setup task payload := by
      simp only [Server.landing, hpayload, hdecides]
    dsimp only
    unfold Server.verdict at hlanding
    cases hproposal : s.proposal (field payload "proposal_id") with
    | error e =>
      rw [hproposal] at hlanding
      exact .stays _ _ (fun _ => hlanding) (.inl rfl)
    | ok found =>
      rw [hproposal] at hlanding
      cases found with
      | none => exact .stays _ _ (fun _ => hlanding) (.inl rfl)
      | some p =>
        dsimp only at hlanding ⊢
        cases hrole : mayApprove task.role with
        | false =>
          rw [hrole] at hlanding
          exact .stays _ _ (fun _ => hlanding) (.inl rfl)
        | true =>
          rw [hrole] at hlanding
          have hstays (hnone : s.landing setup task params = none) :
              ReportMove setup s task params (s, irInvalid ("proposal " ++
                (field payload "proposal_id").text setup.quote ++ " is already " ++
                p.state.name)) := .stays _ _ (fun _ => hnone) (.inl rfl)
          cases happroved : (field payload "decision").eq (.str "approved") with
          | true =>
            rw [happroved] at hlanding
            by_cases hpending : p.state = .pending
            · have hreport := @reportMove_of_decidePending setup s params task payload p true
                (by simpa [hpending] using hlanding)
              simpa [hpending] using hreport
            · simpa [hpending] using hstays (by simpa [hpending] using hlanding)
          | false =>
            rw [happroved] at hlanding
            cases hrejected : (field payload "decision").eq (.str "rejected") with
            | true =>
              rw [hrejected] at hlanding
              by_cases hpending : p.state = .pending
              · have hreport := @reportMove_of_decidePending setup s params task payload p false
                  (by simpa [hpending] using hlanding)
                simpa [hpending] using hreport
              · simpa [hpending] using hstays (by simpa [hpending] using hlanding)
            | false =>
              rw [hrejected] at hlanding
              have hnone : s.landing setup task params = none := by
                by_cases hpending : p.state = .pending <;> simpa [hpending] using hlanding
              exact .stays _ _ (fun _ => hnone) (.inl rfl)
  | none | bool | int | float | str | list =>
    have hlanding : s.landing setup task params = none := by
      simp only [Server.landing, hpayload, hdecides]
    exact .stays _ _ (fun _ => hlanding) (.inl rfl)

/-- **What a report does to the tasks.** -/
theorem reportMove_of_agentReport (setup : Setup)
    (htask : s.task (field params "task_id") = .ok (some task)) :
    ReportMove setup s task params (s.agentReport setup params) := by
  unfold Server.agentReport
  dsimp only
  rw [htask]
  dsimp only
  cases hdecides : ((field params "payload").orElse (.dict [])).containsText "proposal_id" with
  | error e =>
    have hnone : s.landing setup task params = none := by
      simp only [Server.landing, hdecides]
    exact .stays _ _ (fun _ => hnone) (.inl rfl)
  | ok decides =>
    cases decides with
    | true => exact reportMove_of_decide rfl hdecides
    | false =>
      have hlanding : s.landing setup task params =
          TaskState.of? ((field? params "state").getD (.str "completed")) := by
        simp only [Server.landing, hdecides]
      cases hstate : TaskState.of? ((field? params "state").getD (.str "completed")) with
      | some state =>
        exact ReportMove.of_finish (f := fun outcome => outcome.map Task.toDict)
          (fun e => ⟨e, rfl⟩) (hlanding.trans hstate) hstate rfl
      | none =>
        dsimp only
        unfold Server.finish Task.transition
        rw [hstate]
        exact .stays _ _ (fun _ => hlanding.trans hstate) (.inr rfl)

/-! ### Requests -/

/-- A request that is no report keeps the tasks, or adds one that is submitted. -/
theorem tasks_of_other (setup : Setup) (s : Server) (h : requestHandler request ≠ some .agentReport) :
    (s.handle setup request).1.tasks = s.tasks ∨
      ∃ task, (s.handle setup request).1.tasks = s.tasks ++ [task] ∧
        task.state = .submitted ∧ task.history = [.submitted] := by
  rcases handle_run setup s request with hsame | ⟨handler, params, idem, hrequest, hrun⟩
  · rw [hsame]
    exact .inl rfl
  · rw [hrun]
    cases handler with
    | agentCard | irGet | kbRoute | kbLoad | kbVerify => exact .inl rfl
    | agentReport => exact absurd hrequest h
    | agentDispatch =>
      cases hdispatch : s.agentDispatch setup params with
      | error e =>
        left
        rw [Server.run, hdispatch]
        rfl
      | ok result =>
        obtain ⟨t, task⟩ := result
        obtain ⟨rfl, -, hstate, hhistory⟩ := agentDispatch_ok hdispatch
        right
        rw [Server.run, hdispatch]
        exact ⟨task, rfl, hstate, hhistory⟩
    | irPropose =>
      cases hpropose : s.irPropose setup params with
      | error e =>
        left
        rw [Server.run, hpropose]
      | ok result =>
        obtain ⟨t, value⟩ := result
        right
        rw [Server.run, hpropose]
        obtain ⟨task, proposal, -, hstate, hhistory, -, -, -, rfl⟩ := irPropose_ok hpropose
        exact ⟨task, rfl, hstate, hhistory⟩

/-! ### Histories -/

/-- The history of a task starts at `submitted` and ends at its state. -/
structure Chronicled (task : Task) : Prop where
  head : task.history.head? = some .submitted
  last : task.history.getLast? = some task.state

/-- What is known of the tasks after any requests. -/
structure Kept (s : Server) : Prop where
  numbered : TasksNumbered s
  recorded : ∀ task ∈ s.tasks, Chronicled task

theorem Chronicled.append {task : Task} (h : Chronicled task)
    (hhistory : after.history = task.history ++ [state]) (hstate : after.state = state) :
    Chronicled after where
  head := by
    rw [hhistory, List.head?_append, h.head]
    rfl
  last := by rw [hhistory, hstate, List.getLast?_append_cons, List.getLast?_singleton]

theorem Chronicled.start (h : Chronicled task) : Chronicled task.start := by
  unfold Task.start
  split_ifs
  · exact h.append rfl rfl
  · exact h

theorem Chronicled.moved (h : Chronicled task) (state : TaskState) (result : Value) :
    Chronicled (task.moved state result) :=
  h.start.append rfl rfl

/-- The tasks after one of them has changed. -/
theorem mem_setTask (h : old ∈ (s.setTask after).tasks) : old ∈ s.tasks ∨ old = after := by
  obtain ⟨task, htask, rfl⟩ := List.mem_map.mp h
  by_cases hid : task.id = after.id
  · rw [if_pos hid]
    exact .inr rfl
  · rw [if_neg hid]
    exact .inl htask

theorem mem_setTask_self (htask : task ∈ s.tasks) (hid : after.id = task.id) :
    after ∈ (s.setTask after).tasks :=
  List.mem_map.mpr ⟨task, htask, if_pos hid.symm⟩

theorem mem_setTask_other (hold : old ∈ s.tasks) (hid : old.id ≠ after.id) :
    old ∈ (s.setTask after).tasks :=
  List.mem_map.mpr ⟨old, hold, if_neg hid⟩

/-- A report without a task changes nothing. -/
theorem agentReport_unknown (setup : Setup)
    (h : ∀ task, s.task (field params "task_id") ≠ .ok (some task)) :
    ∃ e, s.agentReport setup params = (s, .error e) := by
  unfold Server.agentReport
  dsimp only
  cases htask : s.task (field params "task_id") with
  | error e => exact ⟨_, rfl⟩
  | ok found =>
    cases found with
    | none => exact ⟨_, rfl⟩
    | some task => exact absurd htask (h task)

/-- What a request to report does. -/
theorem report_cases (setup : Setup) (s : Server)
    (hreports : requestHandler request = some .agentReport) :
    (s.handle setup request).1 = s ∨
      ∃ method params task, (field request "jsonrpc").eq (.str "2.0") = true ∧
        field request "method" = .str method ∧ handlerOf method = some .agentReport ∧
        (field request "params").orElse (.dict []) = .dict params ∧
        s.task (field params "task_id") = .ok (some task) ∧
        (s.handle setup request).1 = (s.agentReport setup params).1 ∧
        ReportMove setup s task params (s.agentReport setup params) := by
  rcases handle_of_reports setup s hreports with
    ⟨e, hsame⟩ | ⟨method, params, version, isMethod, handler, isParams, hhandle⟩
  · rw [hsame]
    exact .inl rfl
  · rw [hhandle]
    by_cases hfound : ∃ task, s.task (field params "task_id") = .ok (some task)
    · obtain ⟨task, htask⟩ := hfound
      exact .inr ⟨method, params, task, version, isMethod, handler, isParams, htask, rfl,
        reportMove_of_agentReport setup htask⟩
    · obtain ⟨e, he⟩ := agentReport_unknown setup fun task htask =>
        hfound ⟨task, htask⟩
      rw [he]
      exact .inl rfl

/-- The tasks behind a report are those before it, save one that was taken up or moved. -/
theorem mem_of_reportMove {outcome : Except Raised Value}
    (h : ReportMove setup s task params (t, outcome)) (hafter : after ∈ t.tasks) :
    after ∈ s.tasks ∨ after = task.start ∨ ∃ state result, after = task.moved state result ∧
      task.state.terminal = false ∧ s.landing setup task params = some state := by
  cases h with
  | moved state result _ _ hopen hlanding htasks =>
    rw [htasks] at hafter
    rcases mem_setTask hafter with hold | rfl
    · exact .inl hold
    · exact .inr (.inr ⟨state, result, rfl, hopen, hlanding⟩)
  | stays _ e _ htasks =>
    rcases htasks with htasks | htasks
    · exact .inl (htasks ▸ hafter)
    · rw [htasks] at hafter
      rcases mem_setTask hafter with hold | rfl
      · exact .inl hold
      · exact .inr (.inl rfl)

/-- **Requests keep the tasks numbered and recorded.** -/
theorem Kept.handle (h : Kept s) (setup : Setup) (request : Fields) :
    Kept (s.handle setup request).1 where
  numbered := h.numbered.handle setup request
  recorded := by
    intro after hafter
    by_cases hreports : requestHandler request = some .agentReport
    · rcases report_cases setup s hreports with
        hsame | ⟨_, params, task, _, _, _, _, htask, hhandle, hmove⟩
      · rw [hsame] at hafter
        exact h.recorded after hafter
      · have hrecorded := h.recorded task (task_ok htask).1
        rw [hhandle] at hafter
        rcases mem_of_reportMove hmove hafter with hold | rfl | ⟨state, result, rfl, -, -⟩
        · exact h.recorded after hold
        · exact hrecorded.start
        · exact hrecorded.moved state result
    · rcases tasks_of_other setup s hreports with hsame | ⟨task, htasks, hstate, hhistory⟩
      · rw [hsame] at hafter
        exact h.recorded after hafter
      · rw [htasks, List.mem_append, List.mem_singleton] at hafter
        rcases hafter with hold | rfl
        · exact h.recorded after hold
        · exact ⟨by rw [hhistory]; rfl, by rw [hhistory, hstate]; rfl⟩

theorem Kept.serve (setup : Setup) (doc : Document) (requests : List Fields) :
    Kept (serve setup doc requests) := by
  induction requests using List.reverseRecOn with
  | nil => exact ⟨rfl, fun task htask => absurd htask List.not_mem_nil⟩
  | append_singleton requests request ih =>
    unfold Protocol.serve at ih ⊢
    rw [List.foldl_append]
    exact ih.handle setup request

/-! ### Lawful histories -/

theorem lawful_append_iff {history : List TaskState} {a b : TaskState} (h : Lawful history)
    (hlast : history.getLast? = some a) : Lawful (history ++ [b]) ↔ (a, b) ∈ transitions := by
  have hhead : (history ++ [b]).head? = some .submitted := by
    rw [List.head?_append, h.1]
    rfl
  rw [Lawful, List.isChain_append, hlast]
  constructor
  · rintro ⟨-, -, -, hstep⟩
    exact hstep a rfl b rfl
  · intro hstep
    refine ⟨hhead, h.2, List.isChain_singleton b, ?_⟩
    rintro x ⟨⟩ y ⟨⟩
    exact hstep

theorem lawful_start (hrecorded : Chronicled task) (h : Lawful task.history) :
    Lawful task.start.history := by
  unfold Task.start
  split_ifs with hstate
  · refine (lawful_append_iff h (hrecorded.last.trans (congrArg some hstate))).mpr ?_
    decide
  · exact h

theorem start_state (task : Task) :
    task.start.state = if task.state = .submitted then .working else task.state := by
  unfold Task.start
  split_ifs <;> rfl

/-- A report keeps to the table iff its landing is one for the state of its task. -/
theorem lawful_moved_iff (hrecorded : Chronicled task) (h : Lawful task.history)
    (hopen : task.state.terminal = false) (state : TaskState) (result : Value) :
    Lawful (task.moved state result).history ↔ mayLand task.state state = true := by
  have hstart := lawful_start hrecorded h
  have hiff : (task.start.state, state) ∈ transitions ↔ mayLand task.state state = true := by
    rw [start_state]
    generalize task.state = before at hopen
    cases before with
    | submitted | working | inputRequired => cases state <;> decide
    | completed | failed | canceled => cases hopen
  rw [← hiff]
  exact lawful_append_iff hstart hrecorded.start.last

/-- **One request.** The histories stay paths in the table iff the request keeps to it. -/
theorem lawful_step_iff (hkept : Kept s) (h : ∀ task ∈ s.tasks, Lawful task.history) :
    (∀ task ∈ (s.handle setup request).1.tasks, Lawful task.history) ↔
      Follows setup s request := by
  constructor
  · intro hafter r state hlanding
    obtain ⟨hmem, -⟩ := task_ok r.isTask
    have hhandle := handle_of_report setup s r.version r.isMethod r.handler r.isParams
    have hmove := reportMove_of_agentReport setup r.isTask
    rw [hhandle] at hafter
    generalize s.agentReport setup r.params = outcome at hmove hafter
    cases hmove with
    | moved state' result _ _ hopen hlanding' htasks =>
      cases hlanding.symm.trans hlanding'
      have hmoved := hafter (r.task.moved state result) (by
        rw [htasks]
        exact mem_setTask_self hmem (moved_id r.task state result))
      exact (lawful_moved_iff (hkept.recorded r.task hmem) (h r.task hmem) hopen state
        result).mp hmoved
    | stays _ _ hlanding' _ => cases hlanding.symm.trans (hlanding' r.isOpen)
  · intro hfollows after hafter
    by_cases hreports : requestHandler request = some .agentReport
    · rcases report_cases setup s hreports with hsame | ⟨method, params, task, version, isMethod,
        handler, isParams, htask, hhandle, hmove⟩
      · rw [hsame] at hafter
        exact h after hafter
      · have hmem := (task_ok htask).1
        rw [hhandle] at hafter
        rcases mem_of_reportMove hmove hafter with hold | rfl | ⟨state, result, rfl, hopen, hland⟩
        · exact h after hold
        · exact lawful_start (hkept.recorded task hmem) (h task hmem)
        · refine (lawful_moved_iff (hkept.recorded task hmem) (h task hmem) hopen state
            result).mpr ?_
          exact hfollows ⟨method, params, version, isMethod, handler, isParams, task, htask,
            hopen⟩ state hland
    · rcases tasks_of_other setup s hreports with hsame | ⟨task, htasks, -, hhistory⟩
      · rw [hsame] at hafter
        exact h after hafter
      · rw [htasks, List.mem_append, List.mem_singleton] at hafter
        rcases hafter with hold | rfl
        · exact h after hold
        · rw [hhistory]
          exact ⟨rfl, List.isChain_singleton _⟩

/-! ### Terminal tasks and repeats -/

/-- A terminal task stays as it is. -/
theorem terminal_stays (hkept : Kept s) (setup : Setup) (request : Fields)
    (hmem : task ∈ s.tasks) (hterminal : task.state.terminal = true) :
    task ∈ (s.handle setup request).1.tasks := by
  by_cases hreports : requestHandler request = some .agentReport
  · rcases report_cases setup s hreports with
      hsame | ⟨_, params, reported, _, _, _, _, htask, hhandle, hmove⟩
    · rw [hsame]
      exact hmem
    · have hreported := (task_ok htask).1
      rw [hhandle]
      generalize s.agentReport setup params = outcome at hmove
      cases hmove with
      | moved state result _ _ hopen _ htasks =>
        rw [htasks]
        refine mem_setTask_other hmem ?_
        rw [moved_id]
        intro hid
        rw [hkept.numbered.eq_of_id hmem hreported hid, hopen] at hterminal
        cases hterminal
      | stays _ _ _ htasks =>
        rcases htasks with htasks | htasks
        · rw [htasks]
          exact hmem
        · rw [htasks]
          by_cases hid : task.id = reported.id
          · obtain rfl := hkept.numbered.eq_of_id hmem hreported hid
            have hstart : task.start = task := by
              unfold Task.start
              rw [if_neg]
              intro hstate
              rw [hstate] at hterminal
              cases hterminal
            have hself := mem_setTask_self hmem (start_id task)
            rwa [hstart] at hself ⊢
          · exact mem_setTask_other hmem (by rwa [start_id])
  · rcases tasks_of_other setup s hreports with hsame | ⟨added, htasks, -, -⟩
    · rw [hsame]
      exact hmem
    · rw [htasks]
      exact List.mem_append_left _ hmem

theorem respond_ok_ne_error {rid : Value} {e : Raised} :
    respond rid (.ok result) ≠ respond rid (.error e) := by
  intro h
  cases e <;> simp [respond] at h

theorem start_length (task : Task) : task.history.length ≤ task.start.history.length := by
  unfold Task.start
  split_ifs
  · rw [List.length_append]
    exact Nat.le_add_right _ _
  · exact Nat.le_refl _

/-- A report that is answered with a result has made a history longer. -/
theorem answered_changes (hkept : Kept s) (hreports : requestHandler request = some .agentReport)
    (h : (s.handle setup request).2 = .ok (respond (field request "id") (.ok result))) :
    (s.handle setup request).1 ≠ s := by
  rcases handle_of_reports setup s hreports with
    ⟨e, hsame⟩ | ⟨_, params, _, _, _, _, hhandle⟩
  · rw [hsame] at h
    exact absurd (Except.ok.inj h).symm respond_ok_ne_error
  · rw [hhandle] at h ⊢
    by_cases hfound : ∃ task, s.task (field params "task_id") = .ok (some task)
    · obtain ⟨task, htask⟩ := hfound
      have hmem := (task_ok htask).1
      have hmove := reportMove_of_agentReport setup htask
      generalize s.agentReport setup params = outcome at hmove h
      cases hmove with
      | stays t e _ _ => exact absurd (Except.ok.inj h).symm respond_ok_ne_error
      | moved state moved t outcome _ _ htasks =>
        intro hsame
        dsimp only at hsame
        rw [hsame] at htasks
        have hin : task.moved state moved ∈ s.tasks := by
          rw [htasks]
          exact mem_setTask_self hmem (moved_id task state moved)
        have heq := hkept.numbered.eq_of_id hin hmem (moved_id task state moved)
        have hlength : (task.moved state moved).history.length = task.history.length := by rw [heq]
        have hstart := start_length task
        simp only [Task.moved, List.length_append, List.length_singleton] at hlength
        omega
    · obtain ⟨e, he⟩ := agentReport_unknown setup fun task htask =>
        hfound ⟨task, htask⟩
      rw [he] at h
      exact absurd (Except.ok.inj h).symm respond_ok_ne_error

/-- No report can be repeated. -/
theorem not_repeats (hkept : Kept s) (setup : Setup)
    (hreports : requestHandler request = some .agentReport) : ¬ Repeats setup s request := by
  rintro ⟨⟨result, hanswer⟩, hsame⟩
  exact answered_changes (hkept.handle setup request) hreports hanswer hsame

/-! ### Runs -/

theorem serve_append (setup : Setup) (doc : Document) (requests : List Fields)
    (request : Fields) : serve setup doc (requests ++ [request]) =
      ((serve setup doc requests).handle setup request).1 := by
  rw [serve, List.foldl_append]
  rfl

/-- Histories only grow. -/
theorem exists_longer (hkept : Kept s) (setup : Setup) (request : Fields) (hmem : task ∈ s.tasks) :
    ∃ after ∈ (s.handle setup request).1.tasks, task.history <+: after.history := by
  have hsetTask {after reported : Task} (hreported : reported ∈ s.tasks)
      (hid : after.id = reported.id) (hlonger : reported.history <+: after.history) :
      ∃ after' ∈ (s.setTask after).tasks, task.history <+: after'.history := by
    by_cases hsame : task.id = reported.id
    · obtain rfl := hkept.numbered.eq_of_id hmem hreported hsame
      exact ⟨after, mem_setTask_self hmem hid, hlonger⟩
    · exact ⟨task, mem_setTask_other hmem (by rwa [hid]), List.prefix_rfl⟩
  have hstart (reported : Task) : reported.history <+: reported.start.history := by
    unfold Task.start
    split_ifs
    · exact List.prefix_append _ _
    · exact List.prefix_rfl
  by_cases hreports : requestHandler request = some .agentReport
  · rcases report_cases setup s hreports with
      hsame | ⟨_, params, reported, _, _, _, _, htask, hhandle, hmove⟩
    · rw [hsame]
      exact ⟨task, hmem, List.prefix_rfl⟩
    · have hreported := (task_ok htask).1
      rw [hhandle]
      generalize s.agentReport setup params = outcome at hmove
      cases hmove with
      | moved state result _ _ _ _ htasks =>
        rw [htasks]
        exact hsetTask hreported (moved_id reported state result)
          ((hstart reported).trans (List.prefix_append _ _))
      | stays _ _ _ htasks =>
        rcases htasks with htasks | htasks
        · rw [htasks]
          exact ⟨task, hmem, List.prefix_rfl⟩
        · rw [htasks]
          exact hsetTask hreported (start_id reported) (hstart reported)
  · rcases tasks_of_other setup s hreports with hsame | ⟨added, htasks, -, -⟩
    · rw [hsame]
      exact ⟨task, hmem, List.prefix_rfl⟩
    · rw [htasks]
      exact ⟨task, List.mem_append_left _ hmem, List.prefix_rfl⟩

/-- What has left the table stays out of it. -/
theorem lawful_of_handle (hkept : Kept s)
    (h : ∀ task ∈ (s.handle setup request).1.tasks, Lawful task.history) :
    ∀ task ∈ s.tasks, Lawful task.history := by
  intro task htask
  obtain ⟨after, hafter, hprefix⟩ := exists_longer hkept setup request htask
  obtain ⟨later, hlater⟩ := hprefix
  have hchain := (h after hafter).2
  rw [← hlater] at hchain
  exact ⟨(hkept.recorded task htask).head, hchain.left_of_append⟩

/-- The histories of a run are paths in the table iff every request of it keeps to the table. -/
theorem lawful_serve_iff (setup : Setup) (doc : Document) (requests : List Fields) :
    (∀ task ∈ (serve setup doc requests).tasks, Lawful task.history) ↔
      ∀ before request after, requests = before ++ request :: after →
        Follows setup (serve setup doc before) request := by
  induction requests using List.reverseRecOn with
  | nil =>
    constructor
    · intro _ before request after h
      exact absurd h.symm (List.append_ne_nil_of_right_ne_nil _ (List.cons_ne_nil _ _))
    · exact fun _ task htask => absurd htask List.not_mem_nil
  | append_singleton requests request ih =>
    have hkept := Kept.serve setup doc requests
    rw [serve_append]
    constructor
    · intro h before request' after hsplit
      have hbefore := lawful_of_handle hkept h
      rcases List.eq_nil_or_concat after with rfl | ⟨after', last, rfl⟩
      · obtain ⟨rfl, hlast⟩ := List.append_inj' hsplit rfl
        cases hlast
        exact (lawful_step_iff hkept hbefore).mp h
      · have hconcat : requests ++ [request] = (before ++ request' :: after') ++ [last] := by
          rw [hsplit, List.concat_eq_append, List.append_assoc, List.cons_append]
        obtain ⟨hrequests, -⟩ := List.append_inj' hconcat rfl
        exact ih.mp hbefore before request' after' hrequests
    · intro h
      have hbefore := ih.mpr fun before request' after hsplit =>
        h before request' (after ++ [request]) (by rw [hsplit, List.append_assoc, List.cons_append])
      exact (lawful_step_iff hkept hbefore).mpr (h requests request [] rfl)

/-- **The lifecycle of tasks.** After any requests, the histories are paths in the table iff every
request kept to the table; the next request leaves terminal tasks as they are; and a report can
never be repeated. -/
theorem lifecycle_iff (setup : Setup) (doc : Document) (requests : List Fields) :
    ((∀ task ∈ (serve setup doc requests).tasks, Lawful task.history) ↔
      ∀ before request after, requests = before ++ request :: after →
        Follows setup (serve setup doc before) request) ∧
    ∀ request,
      (∀ task ∈ (serve setup doc requests).tasks, task.state.terminal = true →
        task ∈ ((serve setup doc requests).handle setup request).1.tasks) ∧
      (requestHandler request = some .agentReport →
        ¬ Repeats setup (serve setup doc requests) request) := by
  have hkept := Kept.serve setup doc requests
  refine ⟨lawful_serve_iff setup doc requests, fun request => ⟨?_, ?_⟩⟩
  · intro task hmem hterminal
    exact terminal_stays hkept setup request hmem hterminal
  · exact not_repeats hkept setup

/-- A dispatch, and the report that its agent has started. -/
def startedRequests : List Fields :=
  [rpc "agent.dispatch" [("role", .str "Coder"), ("objective", .str "write the step"),
    ("deadline_ms", .int 1000), ("idempotency_key", .str "t1")],
   rpc "agent.report" [("task_id", .str "task-0001"), ("state", .str "working")]]

/-- The report that the agent has started makes the task work twice, and does so again when it is
repeated. -/
theorem not_lifecycleLaw : ¬ ∀ setup doc requests, LifecycleLaw setup doc requests := by
  intro hlaw
  have hhistories : (serve bareSetup emptyDocument startedRequests).tasks.map Task.history =
      [[.submitted, .working, .working]] := by decide +kernel
  have hlawful := (hlaw bareSetup emptyDocument startedRequests).1
  cases htasks : (serve bareSetup emptyDocument startedRequests).tasks with
  | nil =>
    rw [htasks] at hhistories
    cases hhistories
  | cons task tasks =>
    rw [htasks] at hlawful hhistories
    have hhistory := (List.cons.inj hhistories).1
    have hpath := (hlawful task List.mem_cons_self).2
    rw [hhistory] at hpath
    exact absurd hpath (by decide)

end Lnpl.Protocol
