import Lnpl.Protocol.Equiv.Server

/-!
# The tasks of a server

Tasks are numbered in the order of their dispatch, so that an id names one task in every state that
is reached.
-/

namespace Lnpl.Protocol

open Lnpl.Lib Lnpl.Lib.Py

variable {setup : Setup} {s t : Server} {request params : Fields}

/-! ### Ids -/

/-- `task-%04d`. -/
def taskId (i : Nat) : String := "task-" ++ pad4 (i + 1)

theorem taskId_injective {i j : Nat} (h : taskId i = taskId j) : i = j := eq_of_numbered h

/-- A task that is found is one of the server's, and the value is its id. -/
theorem task_ok {value : Value} {task : Task} (h : s.task value = .ok (some task)) :
    task ∈ s.tasks ∧ value = .str task.id := by
  unfold Server.task at h
  obtain ⟨key, hkey, h⟩ := bind_eq_ok.mp h
  split at h
  · next id =>
    have hfind : s.tasks.find? (fun task => task.id = id) = some task := pure_eq_ok.mp h
    have hid : task.id = id := by simpa using List.find?_some hfind
    refine ⟨List.mem_of_find?_eq_some hfind, ?_⟩
    cases value with
    | str text =>
      have htext : text = id := by simpa [Value.hash, Value.key?] using hkey
      rw [htext, hid]
    | none | bool | int | float | list | dict => cases hkey
  · cases pure_eq_ok.mp h

/-! ### What keeps the ids -/

/-- The ids of the tasks. -/
def Server.taskIds (s : Server) : List String := s.tasks.map Task.id

@[simp] theorem start_id (task : Task) : task.start.id = task.id := by
  unfold Task.start
  split_ifs <;> rfl

/-- The tasks, the number of proposals and the stored responses are the same. -/
structure SameNumbers (s t : Server) : Prop where
  taskIds : t.taskIds = s.taskIds
  proposals : t.proposals.length = s.proposals.length
  idem : t.idem = s.idem

@[simp] theorem sameNumbers_refl : SameNumbers s s := ⟨rfl, rfl, rfl⟩

theorem SameNumbers.trans {u : Server} (h : SameNumbers s t) (h' : SameNumbers t u) :
    SameNumbers s u where
  taskIds := h'.taskIds.trans h.taskIds
  proposals := h'.proposals.trans h.proposals
  idem := h'.idem.trans h.idem

theorem SameNumbers.tasks (h : SameNumbers s t) : t.tasks.length = s.tasks.length := by
  simpa [Server.taskIds] using congrArg List.length h.taskIds

theorem sameNumbers_setTask (task : Task) : SameNumbers s (s.setTask task) where
  taskIds := by
    unfold Server.taskIds Server.setTask
    rw [List.map_map]
    apply List.map_congr_left
    intro old _
    show Task.id (if old.id = task.id then task else old) = old.id
    split_ifs with hid
    · exact hid.symm
    · rfl
  proposals := rfl
  idem := rfl

theorem sameNumbers_setProposal (pid : String) (state : ProposalState) :
    SameNumbers s (s.setProposal pid state) :=
  ⟨rfl, List.length_map .., rfl⟩

theorem sameNumbers_finish (task : Task) (state result : Value) :
    SameNumbers s (s.finish task state result).1 := by
  unfold Server.finish
  split
  · exact sameNumbers_refl
  · exact sameNumbers_setTask _

theorem sameNumbers_apply {p : Proposal} (h : s.apply setup p = .ok t) : SameNumbers s t := by
  obtain ⟨doc, -, h⟩ := bind_eq_ok.mp h
  rw [← pure_eq_ok.mp h]
  exact ⟨rfl, rfl, rfl⟩

theorem sameNumbers_decidePending (task : Task) (payload : Fields) (pid : Value) (p : Proposal)
    (approved : Bool) :
    SameNumbers s (s.decidePending setup task payload pid p approved).1 := by
  have hstart : SameNumbers s (s.setTask task.start) := sameNumbers_setTask _
  unfold Server.decidePending
  cases approved with
  | true =>
    rw [if_pos rfl]
    dsimp only
    cases happly : (s.setTask task.start).apply setup p with
    | error e => exact hstart
    | ok u =>
      have happlied := hstart.trans (sameNumbers_apply happly)
      exact (happlied.trans (sameNumbers_setProposal _ _)).trans (sameNumbers_finish ..)
  | false =>
    rw [if_neg Bool.false_ne_true]
    exact (hstart.trans (sameNumbers_setProposal _ _)).trans (sameNumbers_finish ..)

/-- A report keeps the numbers. -/
theorem sameNumbers_agentReport (setup : Setup) (s : Server) (params : Fields) :
    SameNumbers s (s.agentReport setup params).1 := by
  unfold Server.agentReport
  dsimp only
  split
  · exact sameNumbers_refl
  · exact sameNumbers_refl
  · next task _ =>
    split
    · exact sameNumbers_refl
    · unfold Server.decide
      split
      · dsimp only
        split
        · exact sameNumbers_refl
        · exact sameNumbers_refl
        · split_ifs
          · exact sameNumbers_refl
          · exact sameNumbers_refl
          · exact sameNumbers_refl
          · exact sameNumbers_decidePending ..
      · exact sameNumbers_refl
    · exact (sameNumbers_setTask task.start).trans (sameNumbers_finish ..)

/-! ### Dispatch -/

/-- What a proposal that is recorded adds. -/
theorem irPropose_ok {result : Value} (h : s.irPropose setup params = .ok (t, result)) :
    ∃ task proposal, task.id = taskId s.tasks.length ∧ task.state = .submitted ∧
      task.history = [.submitted] ∧ proposal.id = proposalId s.proposals.length ∧
      proposal.state = .pending ∧
      checkProposal setup s.doc params = .ok (proposal.role, proposal.nodes, proposal.intent) ∧
      t = { s with
        tasks := s.tasks ++ [task]
        proposals := s.proposals ++ [proposal] } := by
  unfold Server.irPropose at h
  obtain ⟨⟨role, nodes, intent⟩, hchecked, h⟩ := bind_eq_ok.mp h
  obtain ⟨⟨u, task⟩, hdispatch, h⟩ := bind_eq_ok.mp h
  obtain ⟨rfl, hid, hstate, hhistory⟩ := agentDispatch_ok hdispatch
  obtain ⟨rfl, -⟩ := Prod.mk.inj (pure_eq_ok.mp h)
  exact ⟨task, _, hid, hstate, hhistory, rfl, rfl, hchecked, rfl⟩

/-! ### Requests -/

/-- A request changes nothing, or it runs a handler, and may store what that answers. -/
theorem handle_run (setup : Setup) (s : Server) (request : Fields) :
    (s.handle setup request).1 = s ∨
      ∃ handler params idem, requestHandler request = some handler ∧
        (s.handle setup request).1 = { (s.run setup handler params).1 with idem := idem } := by
  unfold Server.handle
  dsimp only
  split_ifs with hversion hmethod
  · exact .inl rfl
  · exact .inl rfl
  · cases hname : field request "method" with
    | str name =>
      dsimp only
      cases hhandler : handlerOf name with
      | none => exact .inl rfl
      | some handler =>
        have hrequest : requestHandler request = some handler := by
          unfold requestHandler
          rw [hname]
          exact hhandler
        dsimp only
        unfold handleParams
        split
        · next params _ =>
          split_ifs
          · obtain hsame | ⟨idem, hrun⟩ := idempotent_run setup s name handler params
            · exact .inl hsame
            · exact .inr ⟨handler, params, idem, hrequest, hrun⟩
          · exact .inr ⟨handler, params, _, hrequest, rfl⟩
        · exact .inl rfl
    | none | bool | int | float | list | dict => exact .inl rfl

/-- **What holds of the server, and of what every handler leaves, holds after a request**, if it
does not depend on the stored responses. -/
theorem handle_induct {P : Server → Prop} (hs : P s)
    (hrun : ∀ handler params, P (s.run setup handler params).1)
    (hidem : ∀ t idem, P t → P { t with idem := idem }) : P (s.handle setup request).1 := by
  rcases handle_run setup s request with hsame | ⟨handler, params, idem, -, hrun'⟩
  · rwa [hsame]
  · rw [hrun']
    exact hidem _ idem (hrun handler params)

/-- A request keeps the ids of the tasks, or numbers a new one. -/
theorem taskIds_of_run (setup : Setup) (s : Server) (handler : Handler) (params : Fields) :
    (s.run setup handler params).1.taskIds = s.taskIds ∨
      (s.run setup handler params).1.taskIds = s.taskIds ++ [taskId s.tasks.length] := by
  cases handler with
  | agentCard | irGet | kbRoute | kbLoad | kbVerify => exact .inl rfl
  | agentReport => exact .inl (sameNumbers_agentReport ..).taskIds
  | agentDispatch =>
    cases h : s.agentDispatch setup params with
    | error e =>
      left
      rw [Server.run, h]
      rfl
    | ok result =>
      obtain ⟨t, task⟩ := result
      right
      rw [Server.run, h]
      obtain ⟨rfl, hid, -⟩ := agentDispatch_ok h
      show List.map Task.id (s.tasks ++ [task]) = _
      rw [List.map_append, List.map_singleton, hid]
      rfl
  | irPropose =>
    cases h : s.irPropose setup params with
    | error e =>
      left
      rw [Server.run, h]
    | ok result =>
      obtain ⟨t, value⟩ := result
      right
      rw [Server.run, h]
      obtain ⟨task, proposal, hid, -, -, -, -, -, rfl⟩ := irPropose_ok h
      show List.map Task.id (s.tasks ++ [task]) = _
      rw [List.map_append, List.map_singleton, hid]
      rfl

/-- The tasks are numbered. -/
def TasksNumbered (s : Server) : Prop := s.taskIds = (List.range s.tasks.length).map taskId

section

variable (h : TasksNumbered s)
include h

theorem TasksNumbered.of_taskIds (hids : t.taskIds = s.taskIds) : TasksNumbered t := by
  have hlength : t.tasks.length = s.tasks.length := by
    simpa [Server.taskIds] using congrArg List.length hids
  unfold TasksNumbered
  rw [hids, hlength, h]

theorem TasksNumbered.of_new (hids : t.taskIds = s.taskIds ++ [taskId s.tasks.length]) :
    TasksNumbered t := by
  have hlength : t.tasks.length = s.tasks.length + 1 := by
    simpa [Server.taskIds] using congrArg List.length hids
  unfold TasksNumbered
  rw [hids, hlength, h, List.range_succ, List.map_append, List.map_singleton]

/-- A request keeps the tasks numbered. -/
theorem TasksNumbered.handle (setup : Setup) (request : Fields) :
    TasksNumbered (s.handle setup request).1 := by
  apply handle_induct h
  · intro handler params
    rcases taskIds_of_run setup s handler params with hids | hids
    · exact h.of_taskIds hids
    · exact h.of_new hids
  · intro t idem ht
    exact ht

theorem TasksNumbered.reaches {C : Server → Fields → Prop} (hrun : Reaches (step setup) C s t) :
    TasksNumbered t := by
  apply hrun.invariant _ h
  intro s request t hs _ heq
  rw [← Option.some.inj heq]
  exact hs.handle setup request

/-- Two tasks of one id are one. -/
theorem TasksNumbered.eq_of_id {task task' : Task} (htask : task ∈ s.tasks)
    (htask' : task' ∈ s.tasks) (hid : task.id = task'.id) : task = task' := by
  have hnodup : (s.tasks.map Task.id).Nodup := by
    show s.taskIds.Nodup
    rw [h]
    exact List.nodup_range.map fun i j => taskId_injective
  exact List.inj_on_of_nodup_map hnodup htask htask' hid

end

end Lnpl.Protocol
