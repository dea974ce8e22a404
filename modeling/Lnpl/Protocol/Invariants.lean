import Lnpl.Lib.Runs
import Lnpl.Protocol.Server

/-!
# What a server promises of its document

The document is sound: its nodes have unique ids, and no structure fault.  It changes only where a
report approves a pending proposal, and then exactly in the nodes of that proposal.
-/

namespace Lnpl.Protocol

open Lnpl.Lib Lnpl.Lib.Py

/-- The nodes have pairwise different ids. -/
def UniqueIds (nodes : List Node) : Prop :=
  ∃ keys, nodes.mapM idKey = .ok keys ∧ keys.Nodup

/-- The ids are unique, and `_structure_fault` finds nothing. -/
def SoundDocument (quote : String → String) (doc : Document) : Prop :=
  UniqueIds doc.nodes ∧ ∃ merged, byId doc.nodes = .ok merged ∧
    structureFault quote merged = .ok none

/-- The node is not one of those that the proposal is about. -/
def Untouched (nodes : List Node) (node : Node) : Bool :=
  nodes.all fun proposed => idKey proposed ≠ idKey node

/-- The nodes that changed are exactly these: each of them is in the document, and all others are
as they were, in the same order. -/
structure ChangesExactly (nodes : List Node) (before after : Document) : Prop where
  lirVersion : after.lirVersion = before.lirVersion
  module : after.module = before.module
  rest : after.rest = before.rest
  proposed : ∀ node ∈ nodes, node ∈ after.nodes
  others : after.nodes.filter (Untouched nodes) = before.nodes.filter (Untouched nodes)

/-- The params of a report that decides `approved` on a pending proposal, through a task of an
approving role. -/
structure ApprovingReport (s : Server) (params : Fields) where
  payload : Fields
  task : Task
  proposal : Proposal
  isPayload : (field params "payload").orElse (.dict []) = .dict payload
  decides : (field? payload "proposal_id").isSome = true
  isTask : s.task (field params "task_id") = .ok (some task)
  isProposal : s.proposal (field payload "proposal_id") = .ok (some proposal)
  approver : mayApprove task.role = true
  approved : (field payload "decision").eq (.str "approved") = true
  pending : proposal.state = .pending

/-- A request that hands such a report to the handler of `agent.report`. -/
structure Approval (s : Server) (request : Fields) where
  /-- the method, which names the handler -/
  method : String
  params : Fields
  version : (field request "jsonrpc").eq (.str "2.0") = true
  isMethod : field request "method" = .str method
  handler : handlerOf method = some .agentReport
  isParams : (field request "params").orElse (.dict []) = .dict params
  report : ApprovingReport s params

/-- The proposal that is approved. -/
abbrev Approval.proposal {s : Server} {request : Fields} (a : Approval s request) : Proposal :=
  a.report.proposal

/-- One request; every state has a next one. -/
def step (setup : Setup) (s : Server) (request : Fields) : Option Server :=
  some (s.handle setup request).1

/-- The document is sound, and the proposals that were applied, each once, are those that are
approved. -/
structure Consistent (setup : Setup) (s : Server) : Prop where
  doc : SoundDocument setup.quote s.doc
  once : s.applied.Nodup
  applied : ∀ pid, pid ∈ s.applied ↔ ∃ p ∈ s.proposals, p.id = pid ∧ p.state = .approved

/-- The document changes only in an `agent.report` that approves, and as the proposal says. -/
def ChangesByApproval (s : Server) (request : Fields) (t : Server) : Prop :=
  t.doc = s.doc ∨ ∃ a : Approval s request,
    a.method = "agent.report" ∧ ChangesExactly a.proposal.nodes s.doc t.doc

/-- The law, for every server that starts with a sound document, and every sequence of requests that
all meet `C`. -/
def DocumentLaw (setup : Setup) (C : Server → Fields → Prop) : Prop :=
  ∀ (doc : Document) (s : Server), SoundDocument setup.quote doc →
    Reaches (step setup) C { doc := doc } s →
      Consistent setup s ∧
      (∀ request, C s request → ChangesByApproval s request (s.handle setup request).1) ∧
      ∀ p ∈ s.proposals, p.state = .rejected →
        ∀ t, Reaches (step setup) C s t → p.id ∉ t.applied

/-- The nodes whose id is `None`. -/
def nullIds (nodes : List Node) : Nat :=
  nodes.countP fun node => (field node "id").eq .none

/-- A request that approves a proposal that can be applied is an `agent.report` by that name, and at
most one node of the proposal has the id `None`. -/
def Orderly (setup : Setup) (s : Server) (request : Fields) : Prop :=
  ∀ a : Approval s request, (∃ doc, mergedDocument setup s.doc a.proposal.nodes = .ok doc) →
    a.method = "agent.report" ∧ nullIds a.proposal.nodes ≤ 1

end Lnpl.Protocol

/-!
## What a failed report leaves

A report that is answered with an error has changed nothing, except that it may have taken up the
task it is about.  The one error that is no failure is the `proposal_rejected` that answers a
rejection.
-/

namespace Lnpl.Protocol

open Lnpl.Lib Lnpl.Lib.Py

/-- The params of a report that decides on a pending proposal, through a task of an approving role.
-/
structure Decision (s : Server) (params : Fields) where
  payload : Fields
  task : Task
  proposal : Proposal
  approved : Bool
  isPayload : (field params "payload").orElse (.dict []) = .dict payload
  decides : (field? payload "proposal_id").isSome = true
  isTask : s.task (field params "task_id") = .ok (some task)
  isProposal : s.proposal (field payload "proposal_id") = .ok (some proposal)
  approver : mayApprove task.role = true
  isDecision :
    (field payload "decision").eq (.str (if approved then "approved" else "rejected")) = true
  pending : proposal.state = .pending

/-- A request that hands such a report to the handler of `agent.report`. -/
structure DecisionRequest (s : Server) (request : Fields) where
  /-- the method, which names the handler -/
  method : String
  params : Fields
  version : (field request "jsonrpc").eq (.str "2.0") = true
  isMethod : field request "method" = .str method
  handler : handlerOf method = some .agentReport
  isParams : (field request "params").orElse (.dict []) = .dict params
  decision : Decision s params

/-- The handler that the method of a request names. -/
def requestHandler (request : Fields) : Option Handler :=
  match field request "method" with
  | .str name => handlerOf name
  | _ => none

/-- The params of a request. -/
def requestParams (request : Fields) : Fields :=
  match (field request "params").orElse (.dict []) with
  | .dict params => params
  | _ => []

/-- The request is answered with the error `e`. -/
def FailsWith (setup : Setup) (s : Server) (request : Fields) (e : Value) : Prop :=
  ∃ response, (s.handle setup request).2 = .ok (.dict response) ∧ field? response "error" = some e

/-- The error is the `proposal_rejected` that answers a rejection. -/
def AnswersRejection (s : Server) (request : Fields) (e : Value) : Prop :=
  (∃ d : DecisionRequest s request, d.decision.approved = false) ∧
    ∃ fields, e = .dict fields ∧ field fields "type" = .str ErrorType.proposalRejected.name

/-- A task is as it was, or it is the one that the report is about, and has moved from `submitted`
to `working`. -/
def TakenUp (taskId : Value) (before after : Task) : Prop :=
  after = before ∨ (taskId = .str before.id ∧ before.state = .submitted ∧
    after = { before with state := .working, history := before.history ++ [.working] })

/-- Nothing has changed, except that the task of the report may have been taken up. -/
structure KeepsDecisions (taskId : Value) (s t : Server) : Prop where
  doc : t.doc = s.doc
  applied : t.applied = s.applied
  proposals : t.proposals = s.proposals
  tasks : List.Forall₂ (TakenUp taskId) s.tasks t.tasks

/-- If the request fails, it changes nothing. -/
def KeepsOnFailure (setup : Setup) (s : Server) (request : Fields) : Prop :=
  ∀ e, FailsWith setup s request e → ¬AnswersRejection s request e →
    KeepsDecisions (field (requestParams request) "task_id") s (s.handle setup request).1

/-- The request decides on a pending proposal through a task that is already terminal, and rejects
it, or approves it where it can be applied. -/
def DecidesLate (setup : Setup) (s : Server) (request : Fields) : Prop :=
  ∃ d : DecisionRequest s request, d.decision.task.state.terminal = true ∧
    (d.decision.approved = true →
      ∃ doc, mergedDocument setup s.doc d.decision.proposal.nodes = .ok doc)

end Lnpl.Protocol
