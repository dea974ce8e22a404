import Lnpl.Protocol.Equiv.Tasks

/-!
# Failed reports

A report that fails changes nothing, except that it may have taken up its task, unless it decides
through a task that is already terminal (`keepsOnFailure_iff`): the last transition then raises
behind the merge, or behind the rejection.
-/

namespace Lnpl.Protocol

open Lnpl.Lib Lnpl.Lib.Py

variable {setup : Setup} {s t : Server} {request params : Fields}

/-! ### Taking up a task -/

theorem takenUp_refl (taskId : Value) (tasks : List Task) :
    List.Forall₂ (TakenUp taskId) tasks tasks := by
  induction tasks with
  | nil => exact .nil
  | cons task tasks ih => exact .cons (.inl rfl) ih

theorem KeepsDecisions.refl (taskId : Value) : KeepsDecisions taskId s s where
  doc := rfl
  applied := rfl
  proposals := rfl
  tasks := takenUp_refl taskId s.tasks

variable {task : Task} {state : Value} {state' : TaskState} {method : String}

/-- A task that is found, and taken up. -/
theorem keepsDecisions_start (hs : TasksNumbered s) {value : Value}
    (h : s.task value = .ok (some task)) : KeepsDecisions value s (s.setTask task.start) := by
  obtain ⟨hmem, hvalue⟩ := task_ok h
  have hone : ∀ old ∈ s.tasks,
      TakenUp value old (if old.id = task.start.id then task.start else old) := by
    intro old hold
    rw [start_id]
    split_ifs with hid
    · rw [hs.eq_of_id hold hmem hid]
      unfold Task.start
      split_ifs with hstate
      · exact .inr ⟨hvalue, hstate, rfl⟩
      · exact .inl rfl
    · exact .inl rfl
  constructor
  · rfl
  · rfl
  · rfl
  · show List.Forall₂ (TakenUp value) s.tasks (s.tasks.map _)
    rw [List.forall₂_map_right_iff, List.forall₂_same]
    exact hone

/-! ### The last transition -/

/-- A task that is not terminal is completed, or fails. -/
theorem finish_open (task : Task) (result : Value) (hstate : TaskState.of? state = some state')
    (hopen : task.state.terminal = false) :
    ∃ task', (s.finish task state result).2 = .ok task' := by
  unfold Server.finish Task.transition
  rw [hstate]
  simp only [hopen, Bool.false_eq_true, if_false]
  exact ⟨_, rfl⟩

/-- A task that is terminal stays as it is. -/
theorem finish_terminal (task : Task) (result : Value) (hstate : TaskState.of? state = some state')
    (hterminal : task.state.terminal = true) :
    ∃ text, s.finish task state result =
      (s, .error (.rpc { type := .internal, message := .str text })) := by
  unfold Server.finish Task.transition
  rw [hstate]
  simp only [hterminal, if_true]
  exact ⟨_, rfl⟩

theorem start_terminal (task : Task) : task.start.state.terminal = task.state.terminal := by
  unfold Task.start
  split_ifs with hstate
  · rw [hstate]
    rfl
  · rfl

theorem of?_completed : TaskState.of? (.str "completed") = some .completed := by decide

theorem of?_failed : TaskState.of? (.str "failed") = some .failed := by decide

/-! ### Decisions -/

/-- What became of a request to report. -/
inductive ReportOutcome (setup : Setup) (s : Server) (params : Fields) :
    Server × Except Raised Value → Prop where
  | answered (t : Server) (result : Value) : ReportOutcome setup s params (t, .ok result)
  | refused (e : Raised) : ReportOutcome setup s params (s, .error e)
  | takenUp (task : Task) (e : Raised) (h : s.task (field params "task_id") = .ok (some task)) :
      ReportOutcome setup s params (s.setTask task.start, .error e)
  | rejected (d : Decision s params) (h : d.approved = false) (t : Server) (e : RpcError)
      (type : e.type = .proposalRejected) : ReportOutcome setup s params (t, .error (.rpc e))
  | late (d : Decision s params) (terminal : d.task.state.terminal = true)
      (merged : d.approved = true →
        ∃ doc, mergedDocument setup s.doc d.proposal.nodes = .ok doc)
      (t : Server) (e : Raised) : ReportOutcome setup s params (t, .error e)

/-- The outcome of a decision on a pending proposal. -/
theorem outcome_of_decidePending (d : Decision s params) :
    ReportOutcome setup s params (s.decidePending setup d.task d.payload
      (field d.payload "proposal_id") d.proposal d.approved) := by
  unfold Server.decidePending
  cases happroved : d.approved with
  | true =>
    rw [if_pos rfl]
    dsimp only
    cases happly : (s.setTask d.task.start).apply setup d.proposal with
    | error e => exact .takenUp d.task e d.isTask
    | ok u =>
      obtain ⟨doc, hdoc, -⟩ := bind_eq_ok.mp happly
      dsimp only
      cases hterminal : d.task.state.terminal with
      | true =>
        obtain ⟨text, hfinish⟩ := finish_terminal
          (s := u.setProposal d.proposal.id .approved) d.task.start
          (.dict (decisionResult (field d.payload "proposal_id") "approved" d.payload ++
            [("applied_nodes", .list (d.proposal.nodes.map fun node => field node "id"))]))
          of?_completed ((start_terminal d.task).trans hterminal)
        rw [hfinish]
        exact .late d hterminal (fun _ => ⟨doc, hdoc⟩) _ _
      | false =>
        obtain ⟨task', hfinish⟩ := finish_open
          (s := u.setProposal d.proposal.id .approved) d.task.start
          (.dict (decisionResult (field d.payload "proposal_id") "approved" d.payload ++
            [("applied_nodes", .list (d.proposal.nodes.map fun node => field node "id"))]))
          of?_completed ((start_terminal d.task).trans hterminal)
        rw [hfinish]
        exact .answered _ _
  | false =>
    rw [if_neg Bool.false_ne_true]
    dsimp only
    cases hterminal : d.task.state.terminal with
    | true =>
      obtain ⟨text, hfinish⟩ := finish_terminal
        (s := (s.setTask d.task.start).setProposal d.proposal.id .rejected) d.task.start
        (.dict (decisionResult (field d.payload "proposal_id") "rejected" d.payload))
        of?_failed ((start_terminal d.task).trans hterminal)
      rw [hfinish]
      refine .late d hterminal (fun h => ?_) _ _
      rw [happroved] at h
      cases h
    | false =>
      obtain ⟨task', hfinish⟩ := finish_open
        (s := (s.setTask d.task.start).setProposal d.proposal.id .rejected) d.task.start
        (.dict (decisionResult (field d.payload "proposal_id") "rejected" d.payload))
        of?_failed ((start_terminal d.task).trans hterminal)
      rw [hfinish]
      exact .rejected d happroved _ _ rfl

theorem outcome_of_decide {payload : Value}
    (hpayload : (field params "payload").orElse (.dict []) = payload)
    (hdecides : payload.containsText "proposal_id" = .ok true)
    (htask : s.task (field params "task_id") = .ok (some task)) :
    ReportOutcome setup s params (s.decide setup task payload) := by
  unfold Server.decide
  split
  · next payload =>
    dsimp only
    split
    · exact .refused _
    · exact .refused _
    · next p hp =>
      split_ifs with hrole hdecision hstate
      · exact .refused _
      · exact .refused _
      · exact .refused _
      · let d : Decision s params :=
          { payload := payload
            task := task
            proposal := p
            approved := (field payload "decision").eq (.str "approved")
            isPayload := hpayload
            decides := by simpa [Value.containsText] using hdecides
            isTask := htask
            isProposal := hp
            approver := by simpa using hrole
            isDecision := by
              cases happroved : (field payload "decision").eq (.str "approved") with
              | true => exact happroved
              | false => simpa [happroved] using hdecision
            pending := by simpa using hstate }
        exact outcome_of_decidePending d
  · exact .refused _

theorem outcome_of_agentReport (setup : Setup) (s : Server) (params : Fields) :
    ReportOutcome setup s params (s.agentReport setup params) := by
  unfold Server.agentReport
  dsimp only
  split
  · exact .refused _
  · exact .refused _
  · next task htask =>
    split
    · exact .refused _
    · next hdecides => exact outcome_of_decide rfl hdecides htask
    · unfold Server.finish
      split
      · exact .takenUp task _ htask
      · exact .answered _ _

/-! ### Requests -/

/-- What an error says of the handler. -/
theorem error_of_respond {rid e : Value} {outcome : Except Raised Value} {response : Fields}
    (h : respond rid outcome = .dict response) (he : field? response "error" = some e) :
    ∃ raised, outcome = .error raised ∧
      ∀ rpc, raised = .rpc rpc → e = rpc.toError := by
  unfold respond at h
  split at h
  · rw [← Value.dict.inj h] at he
    cases he
  · next rpc =>
    refine ⟨.rpc rpc, rfl, ?_⟩
    intro rpc' hrpc
    rw [← Value.dict.inj h] at he
    rw [← Raised.rpc.inj hrpc]
    exact (Option.some.inj he).symm
  · next e =>
    refine ⟨.exception e, rfl, ?_⟩
    intro rpc hrpc
    cases hrpc

/-- A report is not idempotent, whatever its spelling. -/
theorem not_idempotent (h : handlerOf method = some .agentReport) :
    idempotentMethods.contains method = false := by
  unfold idempotentMethods
  rw [List.contains_eq_mem, decide_eq_false_iff_not, List.mem_pair]
  rintro (rfl | rfl) <;> exact absurd h (by decide)

theorem type_of_toError {e : RpcError} : ∃ fields, e.toError = .dict fields ∧
    field fields "type" = .str e.type.name := by
  unfold RpcError.toError
  split_ifs <;> exact ⟨_, rfl, rfl⟩

/-- A report is answered with its outcome. -/
theorem handle_of_report (setup : Setup) (s : Server)
    (version : (field request "jsonrpc").eq (.str "2.0") = true)
    (isMethod : field request "method" = .str method)
    (handler : handlerOf method = some .agentReport)
    (isParams : (field request "params").orElse (.dict []) = .dict params) :
    s.handle setup request = ((s.agentReport setup params).1,
      .ok (respond (field request "id") (s.agentReport setup params).2)) := by
  have hname : method ≠ "" := by
    rintro rfl
    exact absurd handler (by decide)
  unfold Server.handle
  rw [version, isMethod]
  simp only [Bool.not_true, Bool.false_eq_true, if_false, Value.truthy, hname, ne_eq,
    not_false_eq_true, decide_true, handler, handleParams, isParams, not_idempotent handler,
    Server.run]

/-- A request that is a decision is answered with what the decision makes of it. -/
theorem handle_of_decision (setup : Setup) (d : DecisionRequest s request) :
    s.handle setup request =
      ((s.decidePending setup d.decision.task d.decision.payload
          (field d.decision.payload "proposal_id") d.decision.proposal d.decision.approved).1,
        .ok (respond (field request "id") (s.decidePending setup d.decision.task d.decision.payload
          (field d.decision.payload "proposal_id") d.decision.proposal d.decision.approved).2)) := by
  obtain ⟨method, params, version, isMethod, handler, isParams, d⟩ := d
  have hdecision : s.decide setup d.task (.dict d.payload) =
      s.decidePending setup d.task d.payload (field d.payload "proposal_id") d.proposal
        d.approved := by
    unfold Server.decide
    dsimp only
    rw [d.isProposal]
    dsimp only
    have happroved : (field d.payload "decision").eq (.str "approved") = d.approved := by
      have h := d.isDecision
      cases happroved : d.approved with
      | true =>
        rw [happroved] at h
        exact h
      | false =>
        rw [happroved] at h
        cases hvalue : field d.payload "decision" with
        | str text =>
          rw [hvalue] at h
          have htext : text = "rejected" := by simpa [Value.eq, Value.key?] using h
          rw [htext]
          decide
        | none | bool | int | float | list | dict =>
          rw [hvalue] at h
          exact absurd h (by simp [Value.eq, Value.key?])
    have hdecided : ((field d.payload "decision").eq (.str "approved") ||
        (field d.payload "decision").eq (.str "rejected")) = true := by
      have h := d.isDecision
      cases hb : d.approved with
      | true =>
        rw [happroved, hb]
        rfl
      | false =>
        rw [hb] at h
        rw [Bool.or_eq_true]
        exact .inr h
    rw [d.approver, hdecided, happroved, d.pending]
    rfl
  have hreport : s.agentReport setup params = s.decidePending setup d.task d.payload
      (field d.payload "proposal_id") d.proposal d.approved := by
    unfold Server.agentReport
    dsimp only
    rw [d.isTask, d.isPayload]
    dsimp only [Value.containsText]
    rw [d.decides]
    exact hdecision
  rw [handle_of_report setup s version isMethod handler isParams, hreport]

/-- A request to report is refused, or answered with the outcome of the report. -/
theorem handle_of_reports (setup : Setup) (s : Server)
    (h : requestHandler request = some .agentReport) :
    (∃ e, s.handle setup request = (s, .ok (respond (field request "id") (.error e)))) ∨
      ∃ method params, (field request "jsonrpc").eq (.str "2.0") = true ∧
        field request "method" = .str method ∧ handlerOf method = some .agentReport ∧
        (field request "params").orElse (.dict []) = .dict params ∧
        s.handle setup request = ((s.agentReport setup params).1,
          .ok (respond (field request "id") (s.agentReport setup params).2)) := by
  unfold requestHandler at h
  split at h
  · next method hname =>
    have hnonempty : (Value.str method).truthy = true := by
      have hne : method ≠ "" := by
        rintro rfl
        exact absurd h (by decide)
      exact decide_eq_true hne
    unfold Server.handle
    rw [hname]
    dsimp only
    split_ifs with hversion hmethod
    · exact .inl ⟨_, rfl⟩
    · rw [hnonempty] at hmethod
      cases hmethod
    · rw [h]
      dsimp only
      unfold handleParams
      split
      · next params hparams =>
        refine .inr ⟨method, params, by simpa using hversion, rfl, h, hparams, ?_⟩
        rw [not_idempotent h]
        rfl
      · exact .inl ⟨_, rfl⟩
  · cases h

/-! ### Decisions through a terminal task -/

/-- A decision changes the state of its proposal. -/
theorem decided_ne {p : Proposal} (hp : p ∈ s.proposals) (hpending : p.state = .pending)
    {state : ProposalState} (hstate : state ≠ .pending) :
    decided p.id state s.proposals ≠ s.proposals := by
  intro heq
  unfold decided at heq
  have hall : ∀ old ∈ s.proposals,
      (if old.id = p.id then { old with state := state } else old) = old := by
    rw [← List.map_id s.proposals, List.map_map, List.map_inj_left] at heq
    exact heq
  have hself := hall p hp
  rw [if_pos rfl] at hself
  have hsame : state = p.state := congrArg Proposal.state hself
  rw [hpending] at hsame
  exact hstate hsame

theorem decidePending_late (d : Decision s params) (hterminal : d.task.state.terminal = true)
    (hmerged : d.approved = true →
      ∃ doc, mergedDocument setup s.doc d.proposal.nodes = .ok doc) :
    ∃ text t, s.decidePending setup d.task d.payload (field d.payload "proposal_id") d.proposal
        d.approved = (t, .error (.rpc { type := .internal, message := .str text })) ∧
      t.proposals ≠ s.proposals := by
  have hterminal' := (start_terminal d.task).trans hterminal
  have hmem := proposal_ok d.isProposal
  unfold Server.decidePending
  cases happroved : d.approved with
  | true =>
    obtain ⟨doc, hdoc⟩ := hmerged happroved
    have happly : (s.setTask d.task.start).apply setup d.proposal =
        .ok { s.setTask d.task.start with
          doc := doc
          applied := s.applied ++ [d.proposal.id] } := by
      unfold Server.apply
      rw [show (s.setTask d.task.start).doc = s.doc from rfl, hdoc]
      rfl
    rw [if_pos rfl]
    dsimp only
    rw [happly]
    dsimp only
    obtain ⟨text, hfinish⟩ := finish_terminal
      (s := Server.setProposal { s.setTask d.task.start with
        doc := doc
        applied := s.applied ++ [d.proposal.id] } d.proposal.id .approved) d.task.start
      (.dict (decisionResult (field d.payload "proposal_id") "approved" d.payload ++
        [("applied_nodes", .list (d.proposal.nodes.map fun node => field node "id"))]))
      of?_completed hterminal'
    rw [hfinish]
    exact ⟨text, _, rfl, decided_ne hmem d.pending (by decide)⟩
  | false =>
    rw [if_neg Bool.false_ne_true]
    dsimp only
    obtain ⟨text, hfinish⟩ := finish_terminal
      (s := (s.setTask d.task.start).setProposal d.proposal.id .rejected) d.task.start
      (.dict (decisionResult (field d.payload "proposal_id") "rejected" d.payload))
      of?_failed hterminal'
    rw [hfinish]
    exact ⟨text, _, rfl, decided_ne hmem d.pending (by decide)⟩

/-! ### The law -/

theorem not_keepsOnFailure_of_late (h : DecidesLate setup s request) :
    ¬KeepsOnFailure setup s request := by
  obtain ⟨d, hterminal, hmerged⟩ := h
  obtain ⟨text, t, hdecided, hproposals⟩ := decidePending_late d.decision hterminal hmerged
  have hhandle := handle_of_decision setup d
  rw [hdecided] at hhandle
  intro hlaw
  have hkeeps := hlaw _ ⟨_, congrArg Prod.snd hhandle, rfl⟩ (by
    rintro ⟨-, fields, hfields, htype⟩
    obtain ⟨fields', hfields', htype'⟩ :=
      type_of_toError (e := { type := .internal, message := .str text })
    rw [← Value.dict.inj (hfields'.symm.trans hfields), htype'] at htype
    exact absurd (Value.str.inj htype)
      (show ErrorType.internal.name ≠ ErrorType.proposalRejected.name by decide))
  rw [hhandle] at hkeeps
  exact hproposals hkeeps.proposals

theorem keepsOnFailure_of_not_late (hs : TasksNumbered s)
    (hreports : requestHandler request = some .agentReport) (h : ¬DecidesLate setup s request) :
    KeepsOnFailure setup s request := by
  rintro e ⟨response, hresponse, he⟩ hrejection
  rcases handle_of_reports setup s hreports with ⟨refusal, hsame⟩ | hreport
  · rw [hsame]
    exact .refl _
  · obtain ⟨method, params, version, isMethod, handler, isParams, hhandle⟩ := hreport
    have hparams : requestParams request = params := by
      unfold requestParams
      rw [isParams]
    rw [hhandle] at hresponse ⊢
    obtain ⟨raised, hraised, htext⟩ := error_of_respond (Except.ok.inj hresponse) he
    have houtcome := outcome_of_agentReport setup s params
    rw [hparams]
    generalize s.agentReport setup params = outcome at houtcome hraised
    let request' (d : Decision s params) : DecisionRequest s request :=
      { method := method
        params := params
        version := version
        isMethod := isMethod
        handler := handler
        isParams := isParams
        decision := d }
    cases houtcome with
    | answered t result => cases hraised
    | refused e => exact .refl _
    | takenUp task e htask => exact keepsDecisions_start hs htask
    | rejected d happroved t rpc htype =>
      obtain ⟨fields, hfields, hfield⟩ := type_of_toError (e := rpc)
      have hrpc : e = rpc.toError := htext rpc (Except.error.inj hraised).symm
      rw [htype] at hfield
      exact absurd ⟨⟨request' d, happroved⟩, fields, hrpc.trans hfields, hfield⟩ hrejection
    | late d hterminal hmerged t raised' => exact absurd ⟨request' d, hterminal, hmerged⟩ h

/-- **Failed reports.**  In every state that is reached, a report that is answered with an error,
other than the `proposal_rejected` of a rejection, changes nothing but that its task may have been
taken up, if and only if it does not decide through a terminal task. -/
theorem keepsOnFailure_iff (setup : Setup) (doc : Document) (s : Server)
    (hs : Reaches (step setup) anyAction { doc := doc } s) (request : Fields)
    (hreports : requestHandler request = some .agentReport) :
    KeepsOnFailure setup s request ↔ ¬DecidesLate setup s request := by
  constructor
  · intro hlaw hlate
    exact not_keepsOnFailure_of_late hlate hlaw
  · intro hlate
    have hnumbered : TasksNumbered ({ doc := doc } : Server) := rfl
    exact keepsOnFailure_of_not_late (hnumbered.reaches hs) hreports hlate

/-- A Reviewer reports on a task that does not exist. -/
theorem keepsOnFailure_iff_unknown :
    KeepsOnFailure bareSetup { doc := emptyDocument }
        (rpc "agent.report" [("task_id", .str "task-0009")]) ↔
      ¬DecidesLate bareSetup { doc := emptyDocument }
        (rpc "agent.report" [("task_id", .str "task-0009")]) :=
  keepsOnFailure_iff bareSetup emptyDocument _ .refl _ (by decide)

/-! ### An approval through a completed task -/

/-- An Entity without fields. -/
def entityNode (id : String) : Value :=
  .dict [("id", .str id), ("kind", .str "Entity"), ("name", .str id)]

/-- An Architect proposes one node. -/
def proposeNode (key : String) (node : Value) : Fields :=
  rpc "ir.propose" [("idempotency_key", .str key), ("role", .str "Architect"),
    ("kb_pins", .list []), ("ir_fragment", .dict [("nodes", .list [node])])]

/-- A task reports a decision on a proposal. -/
def decideOn (taskId pid decision : String) : Fields :=
  rpc "agent.report" [("task_id", .str taskId),
    ("payload", .dict [("proposal_id", .str pid), ("decision", .str decision)])]

/-- One proposal is approved through its task, and another one is made. -/
def lateRequests : List Fields :=
  [proposeNode "k-1" (entityNode "entity.a"), decideOn "task-0001" "prop-0001" "approved",
   proposeNode "k-2" (entityNode "entity.b")]

/-- The answer is an `internal` error. -/
def answersInternal : Except Error Value → Bool
  | .ok (.dict response) =>
    match field response "error" with
    | .dict fields => (field fields "type").eq (.str ErrorType.internal.name)
    | _ => false
  | _ => false

/-- An `internal` error does not answer a rejection. -/
theorem fails_of_answersInternal (setup : Setup) (s : Server) (request : Fields)
    (h : answersInternal (s.handle setup request).2 = true) :
    ∃ e, FailsWith setup s request e ∧ ¬AnswersRejection s request e := by
  unfold answersInternal at h
  split at h
  · next response hresponse =>
    split at h
    · next fields hfields =>
      refine ⟨.dict fields, ⟨response, hresponse, ?_⟩, ?_⟩
      · unfold field at hfields
        cases herror : field? response "error" with
        | none =>
          rw [herror] at hfields
          cases hfields
        | some e =>
          rw [herror] at hfields
          exact congrArg some hfields
      · rintro ⟨-, fields', hsame, htype⟩
        rw [← Value.dict.inj hsame] at htype
        rw [htype] at h
        exact absurd h (by decide)
    · cases h
  · cases h

/-- The completed task of the first proposal decides on the second: the request fails, and the
second proposal is applied. -/
theorem not_keepsOnFailure : ¬ ∀ (setup : Setup) (doc : Document) (s : Server),
    SoundDocument setup.quote doc → Reaches (step setup) anyAction { doc := doc } s →
      ∀ request, field request "method" = .str "agent.report" →
        KeepsOnFailure setup s request := by
  intro hlaw
  let start : Server := { doc := emptyDocument }
  let s := (exec (step bareSetup) start lateRequests).get (by decide +kernel)
  have hs : exec (step bareSetup) start lateRequests = some s := (Option.some_get _).symm
  let request := decideOn "task-0001" "prop-0002" "approved"
  have hkeeps := hlaw bareSetup emptyDocument s soundDocument_empty (reaches_of_exec hs) request rfl
  obtain ⟨e, hfails, hrejection⟩ :=
    fails_of_answersInternal bareSetup s request (by decide +kernel)
  have happlied := (hkeeps e hfails hrejection).applied
  have hboth : s.applied = ["prop-0001"] ∧
      (s.handle bareSetup request).1.applied = ["prop-0001", "prop-0002"] := by decide +kernel
  rw [hboth.1, hboth.2] at happlied
  exact absurd happlied (by decide)

end Lnpl.Protocol
