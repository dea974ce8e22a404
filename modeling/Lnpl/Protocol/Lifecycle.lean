import Lnpl.Protocol.Invariants

/-!
# The lifecycle of a task

The transition table of RFC-0006, what a report makes of an open task, and the reports that keep to
the table.  `Task.transition` itself asks only whether the task is terminal and the state is known.
-/

namespace Lnpl.Protocol

open Lnpl.Lib.Py

/-- The transitions of a task. -/
def transitions : List (TaskState × TaskState) :=
  [(.submitted, .working), (.submitted, .canceled), (.working, .inputRequired),
   (.inputRequired, .working), (.inputRequired, .canceled), (.working, .completed),
   (.working, .failed), (.working, .canceled)]

/-- A path in the table that starts at `submitted`. -/
def Lawful (history : List TaskState) : Prop :=
  history.head? = some .submitted ∧ history.IsChain fun a b => (a, b) ∈ transitions

/-- A server that was started with a document, after some requests. -/
def serve (setup : Setup) (doc : Document) (requests : List Fields) : Server :=
  requests.foldl (fun s request => (s.handle setup request).1) { doc := doc }

/-! ### Reports -/

/-- The state that a decision moves its task to, unless it is refused before that. -/
def Server.verdict (setup : Setup) (s : Server) (task : Task) (payload : Fields) :
    Option TaskState :=
  match s.proposal (field payload "proposal_id") with
  | .ok (some proposal) =>
    let decision := field payload "decision"
    if !mayApprove task.role || proposal.state ≠ .pending then none
    else if decision.eq (.str "approved") then
      (mergedDocument setup s.doc proposal.nodes).toOption.map fun _ => .completed
    else if decision.eq (.str "rejected") then some .failed
    else none
  | _ => none

/-- The state that a report moves its task to: the one it names, or that of its decision. -/
def Server.landing (setup : Setup) (s : Server) (task : Task) (params : Fields) :
    Option TaskState :=
  let payload := (field params "payload").orElse (.dict [])
  match payload.containsText "proposal_id", payload with
  | .ok false, _ => TaskState.of? ((field? params "state").getD (.str "completed"))
  | .ok true, .dict payload => s.verdict setup task payload
  | _, _ => none

/-- A report on a task that is not terminal. -/
structure OpenReport (s : Server) (request : Fields) where
  /-- the method, which names the handler -/
  method : String
  params : Fields
  version : (field request "jsonrpc").eq (.str "2.0") = true
  isMethod : field request "method" = .str method
  handler : handlerOf method = some .agentReport
  isParams : (field request "params").orElse (.dict []) = .dict params
  task : Task
  isTask : s.task (field params "task_id") = .ok (some task)
  isOpen : task.state.terminal = false

/-- The states that a task in some state may be moved to by a report, which takes up a submitted
task before. -/
def mayLand : TaskState → TaskState → Bool
  | .inputRequired, state => state = .working || state = .canceled
  | _, state => state ≠ .submitted && state ≠ .working

/-- A report on a task that is submitted or working moves it neither to `submitted` nor to
`working`, and one on a task that waits for input moves it to `working` or to `canceled`. -/
def Follows (setup : Setup) (s : Server) (request : Fields) : Prop :=
  ∀ (r : OpenReport s request) (state : TaskState),
    s.landing setup r.task r.params = some state → mayLand r.task.state state = true

/-! ### Repeats -/

/-- Sent again, the request is answered with a result, and leaves the server as it was after the
first time. -/
def Repeats (setup : Setup) (s : Server) (request : Fields) : Prop :=
  let t := (s.handle setup request).1
  (∃ result, (t.handle setup request).2 = .ok (respond (field request "id") (.ok result))) ∧
    (t.handle setup request).1 = t

/-- Every history is a path in the table, terminal tasks stay as they are, and every report may be
repeated, whatever the requests. -/
def LifecycleLaw (setup : Setup) (doc : Document) (requests : List Fields) : Prop :=
  (∀ task ∈ (serve setup doc requests).tasks, Lawful task.history) ∧
    ∀ request,
      (∀ task ∈ (serve setup doc requests).tasks, task.state.terminal = true →
        task ∈ ((serve setup doc requests).handle setup request).1.tasks) ∧
      (requestHandler request = some .agentReport →
        Repeats setup (serve setup doc requests) request)

end Lnpl.Protocol
