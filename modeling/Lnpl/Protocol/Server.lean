import Lnpl.Protocol.Intent

/-!
# The server of the agent protocol

An in-process JSON-RPC server that holds a document.  A request is a dict; what a method has changed
before it raises stays changed.  The knowledge base and the schema validator are given to it.
-/

namespace Lnpl.Protocol

open Lnpl.Lib.Py

/-! ### State -/

/-- `TASK_STATES`. -/
inductive TaskState where
  | submitted
  | working
  | inputRequired
  | completed
  | failed
  | canceled
  deriving DecidableEq, Repr

def TaskState.name : TaskState → String
  | .submitted => "submitted"
  | .working => "working"
  | .inputRequired => "input-required"
  | .completed => "completed"
  | .failed => "failed"
  | .canceled => "canceled"

def taskStates : List TaskState :=
  [.submitted, .working, .inputRequired, .completed, .failed, .canceled]

/-- The state that a value names. -/
def TaskState.of? (value : Value) : Option TaskState :=
  taskStates.find? fun state => value.eq (.str state.name)

def TaskState.terminal (state : TaskState) : Bool :=
  state = .completed || state = .failed || state = .canceled

/-- A dispatched unit of work. -/
structure Task where
  id : String
  role : String
  objective : Value
  state : TaskState := .submitted
  history : List TaskState := [.submitted]
  result : Value := .none

/-- `to_dict`. -/
def Task.toDict (task : Task) : Value :=
  .dict [("task_id", .str task.id), ("role", .str task.role), ("state", .str task.state.name),
    ("objective", task.objective),
    ("history", .list (task.history.map fun state => .str state.name)), ("result", task.result)]

inductive ProposalState where
  | pending
  | approved
  | rejected
  deriving DecidableEq, Repr

def ProposalState.name : ProposalState → String
  | .pending => "pending"
  | .approved => "approved"
  | .rejected => "rejected"

structure Proposal where
  id : String
  role : String
  state : ProposalState
  nodes : List Node
  intent : Value
  reviewTaskId : String

/-- A document: its nodes, and everything else it holds. -/
structure Document where
  lirVersion : Value
  module : Value
  rest : Fields := []
  nodes : List Node

/-- What a server is given: `kb`, `schema_validator` (with the text of what it raises), and `quote`,
the `repr` of a text. -/
structure Setup where
  route : Value → Except Error Value
  load : Value → Except String Value
  verify : Value → Value → Except Error Bool
  validate : Option (Document → Except String Unit)
  quote : String → String

/-- The tasks and the proposals are in the order of their ids; `idem` are the keys with the
fingerprint and the stored first response. -/
structure Server where
  doc : Document
  tasks : List Task := []
  proposals : List Proposal := []
  applied : List String := []
  idem : List (Key × String × Value) := []

/-- `"%04d" % n`. -/
def pad4 (n : Nat) : String :=
  String.ofList (List.replicate (4 - (Nat.toDigits 10 n).length) '0' ++ Nat.toDigits 10 n)

/-- `self.tasks.get(task_id)`. -/
def Server.task (s : Server) (taskId : Value) : Except Error (Option Task) := do
  match ← taskId.hash with
  | .str id => return s.tasks.find? fun task => task.id = id
  | _ => return none

/-- `self.proposals.get(pid)`. -/
def Server.proposal (s : Server) (pid : Value) : Except Error (Option Proposal) := do
  match ← pid.hash with
  | .str id => return s.proposals.find? fun proposal => proposal.id = id
  | _ => return none

/-- The server after the task object changed. -/
def Server.setTask (s : Server) (task : Task) : Server :=
  { s with tasks := s.tasks.map fun old => if old.id = task.id then task else old }

/-- The server after the state of a proposal changed. -/
def Server.setProposal (s : Server) (pid : String) (state : ProposalState) : Server :=
  { s with proposals := s.proposals.map fun old =>
      if old.id = pid then { old with state := state } else old }

/-! ### Tasks -/

/-- `transition`. -/
def Task.transition (task : Task) (state : Value) : Except Raised Task :=
  match TaskState.of? state with
  | none => .error (.rpc { type := .internal, message := .str "unknown task state" })
  | some state =>
    if task.state.terminal then
      .error (.rpc {
        type := .internal
        message := .str ("task " ++ task.id ++ " is already terminal (" ++ task.state.name ++
          ")") })
    else .ok { task with state := state, history := task.history ++ [state] }

/-- A submitted task that is taken up. -/
def Task.start (task : Task) : Task :=
  if task.state = .submitted then
    { task with state := .working, history := task.history ++ [.working] }
  else task

/-- `_m_agent_dispatch`. -/
def Server.agentDispatch (setup : Setup) (s : Server) (params : Fields) :
    Except Raised (Server × Task) := do
  let role := field params "role"
  match ← roleOf role with
  | none => irInvalid ("unknown role " ++ role.repr setup.quote)
  | some (role, _) =>
    let objective := field params "objective"
    if !objective.truthy then irInvalid "dispatch needs an objective"
    match field params "deadline_ms" with
    | .none =>
      irInvalid ("dispatch needs a deadline_ms (RFC-0006 §Reliability: every call carries a " ++
        "deadline)")
    | _ =>
      let task : Task :=
        { id := "task-" ++ pad4 (s.tasks.length + 1), role := role, objective := objective }
      return ({ s with tasks := s.tasks ++ [task] }, task)

/-! ### Applying a proposal -/

/-- A proposed node, put in the place of the node of its id, or behind all others. -/
def mergeNode (existing : List Key) (merged : List Node) (node : Node) :
    Except Error (List Node) := do
  let key ← idKey node
  if existing.contains key then
    merged.mapM fun other => do
      return if (← idKey other) = key then node else other
  else return merged ++ [node]

/-- The nodes of the document with those of the proposal. -/
def mergeNodes (docNodes nodes : List Node) : Except Error (List Node) := do
  nodes.foldlM (mergeNode (← docNodes.mapM idKey)) docNodes

/-- The references of a proposed node resolve. -/
def checkReferences (setup : Setup) (mergedIds : List Key) (node : Node) : Except Raised Unit := do
  for ref in ← nodeReferences node do
    if !mergedIds.contains (← ref.hash) then
      irInvalid ("applying " ++ (← item node "id").text setup.quote ++
        " would leave a dangling reference to " ++ ref.text setup.quote)

/-- The document that `_apply` makes authoritative. -/
def mergedDocument (setup : Setup) (doc : Document) (nodes : List Node) :
    Except Raised Document := do
  let mergedNodes ← mergeNodes doc.nodes nodes
  let mergedIds ← (mergedNodes.mapM idKey : Except Error (List Key))
  nodes.forM (checkReferences setup mergedIds)
  match ← structureFault setup.quote (← byId mergedNodes) with
  | some fault => irInvalid ("merged IR violates a structure rule: " ++ fault)
  | none =>
    let merged := { doc with nodes := mergedNodes }
    match setup.validate with
    | none => return merged
    | some validate =>
      match validate merged with
      | .ok () => return merged
      | .error text => irInvalid ("merged IR fails validation: " ++ text)

/-- `_apply`. -/
def Server.apply (setup : Setup) (s : Server) (proposal : Proposal) : Except Raised Server := do
  let merged ← mergedDocument setup s.doc proposal.nodes
  return { s with doc := merged, applied := s.applied ++ [proposal.id] }

/-! ### Reports and decisions -/

/-- `ROLES[role]["approve"]`. -/
def mayApprove (role : String) : Bool :=
  match roles.lookup role with
  | some spec => spec.approve
  | none => false

/-- The task after its last transition, with its result. -/
def Server.finish (s : Server) (task : Task) (state : Value) (result : Value) :
    Server × Except Raised Task :=
  match task.transition state with
  | .error e => (s, .error e)
  | .ok task =>
    let task := { task with result := result }
    (s.setTask task, .ok task)

/-- The result of a decision. -/
def decisionResult (pid : Value) (decision : String) (payload : Fields) : Fields :=
  [("proposal_id", pid), ("decision", .str decision),
    ("reason", (field? payload "reason").getD (.str ""))]

/-- `_decide` on a pending proposal by a task that may approve. -/
def Server.decidePending (setup : Setup) (s : Server) (task : Task) (payload : Fields) (pid : Value)
    (proposal : Proposal) (approved : Bool) : Server × Except Raised Value :=
  let task := task.start
  let s := s.setTask task
  if approved then
    match s.apply setup proposal with
    | .error e => (s, .error e)
    | .ok s =>
      let result := .dict (decisionResult pid "approved" payload ++
        [("applied_nodes", .list (proposal.nodes.map fun node => field node "id"))])
      let (s, outcome) :=
        (s.setProposal proposal.id .approved).finish task (.str "completed") result
      (s, outcome.map Task.toDict)
  else
    let result := .dict (decisionResult pid "rejected" payload)
    let (s, outcome) := (s.setProposal proposal.id .rejected).finish task (.str "failed") result
    (s, do
      let _ ← outcome
      .error (.rpc {
        type := .proposalRejected
        message := (field payload "reason").orElse (.str "proposal rejected")
        details := [("proposal_id", pid)] }))

/-- `_decide`. -/
def Server.decide (setup : Setup) (s : Server) (task : Task) (payload : Value) :
    Server × Except Raised Value :=
  match payload with
  | .dict payload =>
    let pid := field payload "proposal_id"
    match s.proposal pid with
    | .error e => (s, .error (.exception e))
    | .ok none => (s, irInvalid ("unknown proposal " ++ pid.repr setup.quote))
    | .ok (some proposal) =>
      if !mayApprove task.role then
        (s, .error (.rpc {
          type := .proposalRejected
          message := .str ("role " ++ task.role ++ " may not approve proposals") }))
      else
        let decision := field payload "decision"
        if !(decision.eq (.str "approved") || decision.eq (.str "rejected")) then
          (s, irInvalid "decision must be approved|rejected")
        else if proposal.state ≠ .pending then
          (s, irInvalid ("proposal " ++ pid.text setup.quote ++ " is already " ++
            proposal.state.name))
        else s.decidePending setup task payload pid proposal (decision.eq (.str "approved"))
  -- `payload["proposal_id"]` of a text or a list
  | _ => (s, .error (.exception .typeError))

/-- `_m_agent_report`. -/
def Server.agentReport (setup : Setup) (s : Server) (params : Fields) :
    Server × Except Raised Value :=
  let taskId := field params "task_id"
  match s.task taskId with
  | .error e => (s, .error (.exception e))
  | .ok none => (s, irInvalid ("unknown task " ++ taskId.repr setup.quote))
  | .ok (some task) =>
    let payload := (field params "payload").orElse (.dict [])
    match payload.containsText "proposal_id" with
    | .error e => (s, .error (.exception e))
    | .ok true => s.decide setup task payload
    | .ok false =>
      let state := (field? params "state").getD (.str "completed")
      let (s, outcome) := (s.setTask task.start).finish task.start state payload
      (s, outcome.map Task.toDict)

/-! ### Proposing -/

/-- One entry of `kb_pins`. -/
def checkPin (pin : Value) : Except Raised Unit :=
  match pin with
  | .dict pin =>
    let named (name : String) : Bool :=
      match field pin name with
      | .str s => s ≠ ""
      | _ => false
    if !named "doc_id" then
      irInvalid "kb_pins entry missing or empty doc_id (must be non-empty string)"
    else if !named "version" then
      irInvalid "kb_pins entry missing or empty version (must be non-empty string)"
    else .ok ()
  | _ => irInvalid "each kb_pins entry must be an object {doc_id, version}"

/-- `kb_pins`. -/
def checkPins (kbPins : Value) : Except Raised Unit :=
  match kbPins with
  | .none =>
    irInvalid ("ir.propose requires kb_pins parameter — a list of \x7bdoc_id, version\x7d " ++
      "objects, or [] if no KB docs used (RFC-0006 §Methods/ir.propose)")
  | .list pins => pins.forM checkPin
  | _ => irInvalid ("kb_pins must be an array, got " ++ kbPins.typeName)

/-- `n.get("id") for n in nodes if isinstance(n, dict)`. -/
def proposedIds (nodes : List Value) : List Value :=
  nodes.filterMap fun
    | .dict node => some (field node "id")
    | _ => none

/-- One node per id; a `None` is not counted. -/
def repeatedIds (nodes : List Value) : List Value :=
  let ids := proposedIds nodes
  ids.filter fun id => !id.eq .none && decide (1 < ids.countP fun other => other.eq id)

/-- Raises if a fragment names an id more than once. -/
def checkRepeated (nodes : List Value) : Except Raised Unit := do
  let repeated ← (repeatedIds nodes).mapM fun id => (id.hash : Except Error Key)
  let repeated ← sortKeys repeated.dedup
  if repeated ≠ [] then
    irInvalid ("ir_fragment names " ++ (← joinKeys ", " repeated) ++
      " more than once — one node per id (RFC-0001 §구조 규칙, id 유일)")

/-- `n["id"]`, if `"id" in n`. -/
def idIfNamed (node : Value) : Except Error (Option Value) := do
  if ← node.containsText "id" then
    match node with
    | .dict fields => return some (← item fields "id")
    | _ => .error .typeError
  else return none

/-- `{n["id"]: n for n in nodes if "id" in n}`. -/
def proposedById (nodes : List Value) : Except Error Nodes :=
  nodes.foldlM (fun proposed node => do
    match ← idIfNamed node with
    | none => return proposed
    | some id =>
      let fields :=
        match node with
        | .dict fields => fields
        | _ => []
      return setNode (← id.hash) fields proposed) []

/-- `nodes.get(id, {}).get("kind")`. -/
def kindOf (nodes : Nodes) (id : String) : Value :=
  match nodes.lookup (.str id) with
  | some node => field node "kind"
  | none => .none

/-- The check of one child of `intent.attach`. -/
def checkAttached (setup : Setup) (existing proposed : Nodes) (parent : String) (parentKind : Value)
    (child : String) : Except Raised Unit := do
  let authored :=
    (proposed.lookup (.str child)).isSome && (existing.lookup (.str child)).isNone
  if !authored then
    irInvalid ("intent.attach names " ++ child ++ ", which this proposal did not author — a " ++
      "proposal may attach only a node it wrote in the same fragment (RFC-0010)")
  let childKind := kindOf proposed child
  if ← kindIn constraintKinds childKind then return ()
  if !(← kindIn (← childrenAllowedOf parentKind) childKind) then
    irInvalid ("a " ++ parentKind.text setup.quote ++ " may not own a " ++
      childKind.text setup.quote ++ " (RFC-0001 §노드 카탈로그 children 허용; RFC-0004 §S2 V5): " ++
      "intent.attach puts " ++ child ++ " under " ++ parent)

/-- The check of one parent of `intent.attach`. -/
def checkAttachments (setup : Setup) (existing proposed : Nodes)
    (attachment : String × List String) : Except Raised Unit := do
  let (parent, children) := attachment
  let parentKind :=
    match proposed.lookup (.str parent) with
    | some node => field node "kind"
    | none => kindOf existing parent
  match parentKind with
  | .str _ =>
    (sortTexts children).forM (checkAttached setup existing proposed parent parentKind)
  | _ =>
    irInvalid ("intent.attach names parent " ++ parent ++ ", which is neither in the fragment " ++
      "nor in the document")

/-- The check of the rights to one proposed node. -/
def checkRights (setup : Setup) (role : String) (allowed : List String) (existing proposed : Nodes)
    (attachMap : List (String × List String)) (node : Value) : Except Raised Node := do
  let kind ← node.get "kind"
  let fields :=
    match node with
    | .dict fields => fields
    | _ => []
  if ← kindIn allowed kind then return fields
  let id := field fields "id"
  let declared :=
    match id with
    | .str id => (attachMap.lookup id).getD []
    | _ => []
  let refused : Except Raised Node :=
    irInvalid ("role " ++ role ++ " may not propose " ++ kind.text setup.quote ++ " nodes")
  if declared.isEmpty then refused
  else
    let key ← id.hash
    if ← referenceOnlyEdit fields (existing.lookup key) declared proposed then
      let origin := (← ((field fields "meta").orElse (.dict [])).get "origin").orElse (.str "")
      match origin with
      | .str origin =>
        if "agent:".toList.isPrefixOf origin.toList then return fields
        else
          irInvalid (id.text setup.quote ++ " is edited outside " ++ role ++ "'s rights, so it " ++
            "must record `meta.origin` as `agent:<role>` — otherwise the merged document keeps " ++
            "no trace that a role reached outside its rights (RFC-0010)")
      | _ => .error (.exception .attributeError)
    else refused

/-- What a fragment has to be, and the `nodes` it carries. -/
def fragmentNodes (setup : Setup) (doc : Document) (fragment : Value) : Except Raised Value :=
  let missing : Except Raised Value := irInvalid "ir_fragment must carry a `nodes` array"
  match fragment with
  | .dict fragment =>
    match field? fragment "nodes" with
    | none => missing
    | some nodes =>
      let module := field fragment "module"
      if !(module.eq .none || module.eq doc.module) then
        irInvalid ("fragment module " ++ module.repr setup.quote ++ " does not match " ++
          doc.module.repr setup.quote)
      else .ok nodes
  | _ => missing

/-- The checks of `_m_ir_propose`: the role, the nodes and the intent of the proposal. -/
def checkProposal (setup : Setup) (doc : Document) (params : Fields) :
    Except Raised (String × List Node × Value) := do
  let role := field params "role"
  match ← roleOf role with
  | none => irInvalid ("unknown role " ++ role.repr setup.quote)
  | some (role, spec) =>
    let fragment ← fragmentNodes setup doc (field params "ir_fragment")
    checkPins (field params "kb_pins")
    let nodes ← fragment.iterate
    checkRepeated nodes
    let intent := (field params "intent").orElse (.dict [])
    let attachMap ← attachments setup.quote intent
    let _ ← moves setup.quote intent
    let existing ← byId doc.nodes
    let proposed ← proposedById nodes
    attachMap.forM (checkAttachments setup existing proposed)
    let nodes ← nodes.mapM (checkRights setup role spec.propose existing proposed attachMap)
    return (role, nodes, intent)

/-- `_m_ir_propose`. -/
def Server.irPropose (setup : Setup) (s : Server) (params : Fields) :
    Except Raised (Server × Value) := do
  let (role, nodes, intent) ← checkProposal setup s.doc params
  let pid := "prop-" ++ pad4 (s.proposals.length + 1)
  let (s, review) ← s.agentDispatch setup [("role", .str "Reviewer"),
    ("objective", .str ("review " ++ pid)),
    ("deadline_ms", (field? params "deadline_ms").getD (.int 30000))]
  let proposal : Proposal :=
    { id := pid, role := role, state := .pending, nodes := nodes, intent := intent,
      reviewTaskId := review.id }
  return ({ s with proposals := s.proposals ++ [proposal] },
    .dict [("proposal_id", .str pid), ("state", .str "pending"),
      ("review_task_id", .str review.id)])

/-! ### The other methods -/

/-- `_m_agent_card`. -/
def agentCard (setup : Setup) (params : Fields) : Except Raised Value := do
  let role := field params "role"
  match ← roleOf role with
  | none => irInvalid ("unknown role " ++ role.repr setup.quote)
  | some (role, spec) =>
    let texts (names : List String) : Value := .list (names.map Value.str)
    return .dict [("role", .str role),
      ("ir_access", .dict [("read", texts ["Declaration", "Behavior", "Effect", "Constraint"]),
        ("propose", texts (sortTexts spec.propose))]),
      ("approve", .bool spec.approve),
      ("methods", texts ["agent.card", "agent.dispatch", "agent.report", "ir.get", "ir.propose",
        "kb.route", "kb.load", "kb.verify"]),
      ("protocol", .dict [("jsonrpc", .str "2.0"), ("streaming", .str "sse")]),
      ("version", .str "0.1.0")]

/-- `_m_ir_get`. -/
def irGet (setup : Setup) (doc : Document) (params : Fields) : Except Raised Value := do
  match field params "node_id" with
  | .none =>
    let nodeIds ← doc.nodes.mapM fun node => (item node "id" : Except Error Value)
    return .dict [("lir_version", doc.lirVersion), ("module", doc.module),
      ("node_ids", .list nodeIds)]
  | nodeId =>
    let found ← doc.nodes.findSomeM? fun node => do
      return if (← (item node "id" : Except Error Value)).eq nodeId then some node else none
    match found with
    | some node => return .dict [("node", .dict node)]
    | none => irInvalid ("no such node " ++ nodeId.repr setup.quote)

/-- `_m_kb_route`. -/
def kbRoute (setup : Setup) (params : Fields) : Except Raised Value := do
  let desc := field params "task_description"
  if !desc.truthy then irInvalid "kb.route needs a task_description"
  return .dict [("doc_ids", ← setup.route desc)]

/-- `_m_kb_load`. -/
def kbLoad (setup : Setup) (params : Fields) : Except Raised Value :=
  match setup.load (field params "doc_id") with
  | .ok document => .ok (.dict [("document", document)])
  | .error text => irInvalid text

/-- `_m_kb_verify`. -/
def kbVerify (setup : Setup) (params : Fields) : Except Raised Value := do
  let docId := field params "doc_id"
  let version := field params "version"
  if ← setup.verify docId version then return .dict [("ok", .bool true)]
  .error (.rpc {
    type := .kbVersionConflict
    message := .str ("document " ++ docId.repr setup.quote ++ " is not at version " ++
      version.repr setup.quote ++ " — re-route from kb.route rather than retrying this call")
    details := [("doc_id", docId), ("expected", version)] })

/-! ### Transport -/

/-- The attributes of the server that start with `_m_`. -/
inductive Handler where
  | agentCard
  | agentDispatch
  | agentReport
  | irGet
  | irPropose
  | kbRoute
  | kbLoad
  | kbVerify
  deriving DecidableEq, Repr

/-- The names of the handlers behind `_m_`. -/
def handlers : List (String × Handler) :=
  [("agent_card", .agentCard), ("agent_dispatch", .agentDispatch), ("agent_report", .agentReport),
   ("ir_get", .irGet), ("ir_propose", .irPropose), ("kb_route", .kbRoute), ("kb_load", .kbLoad),
   ("kb_verify", .kbVerify)]

/-- `getattr(self, "_m_" + method.replace(".", "_"), None)`. -/
def handlerOf (method : String) : Option Handler :=
  handlers.lookup (String.ofList (method.toList.map fun ch => if ch = '.' then '_' else ch))

/-- `handler(params)`. -/
def Server.run (setup : Setup) (s : Server) (handler : Handler) (params : Fields) :
    Server × Except Raised Value :=
  let changing (outcome : Except Raised (Server × Value)) : Server × Except Raised Value :=
    match outcome with
    | .ok (s, result) => (s, .ok result)
    | .error e => (s, .error e)
  match handler with
  | .agentCard => (s, Protocol.agentCard setup params)
  | .agentDispatch =>
    changing ((s.agentDispatch setup params).map fun (s, task) => (s, task.toDict))
  | .agentReport => s.agentReport setup params
  | .irGet => (s, Protocol.irGet setup s.doc params)
  | .irPropose => changing (s.irPropose setup params)
  | .kbRoute => (s, Protocol.kbRoute setup params)
  | .kbLoad => (s, Protocol.kbLoad setup params)
  | .kbVerify => (s, Protocol.kbVerify setup params)

/-- The methods that `handle` hands to `_idempotent`. -/
def idempotentMethods : List String := ["agent.dispatch", "ir.propose"]

/-- `_idempotent`. -/
def Server.idempotent (setup : Setup) (s : Server) (method : String) (handler : Handler)
    (params : Fields) : Server × Except Raised Value :=
  let key := field params "idempotency_key"
  if !key.truthy then
    (s, irInvalid (method ++ " requires an idempotency_key (RFC-0006 §Reliability)"))
  else
    let fingerprint :=
      (Value.dict (params.filter fun entry => entry.1 != "idempotency_key")).dumps
    match key.hash with
    | .error e => (s, .error (.exception e))
    | .ok hashed =>
      match s.idem.lookup hashed with
      | some (stored, response) =>
        if stored ≠ fingerprint then
          (s, .error (.rpc {
            type := .idempotencyMismatch
            message := .str "idempotency key reused with different params"
            details := [("key", key)] }))
        else (s, .ok response)
      | none =>
        match s.run setup handler params with
        | (s, .error e) => (s, .error e)
        | (s, .ok result) =>
          ({ s with idem := s.idem ++ [(hashed, fingerprint, result)] }, .ok result)

/-- The response to a request that was handled. -/
def respond (rid : Value) : Except Raised Value → Value
  | .ok result => .dict [("jsonrpc", .str "2.0"), ("id", rid), ("result", result)]
  | .error (.rpc e) => .dict [("jsonrpc", .str "2.0"), ("id", rid), ("error", e.toError)]
  | .error (.exception _) =>
    let e : RpcError := { type := .internal, message := .str "internal error" }
    .dict [("jsonrpc", .str "2.0"), ("id", rid), ("error", e.toError)]

/-- `params`, as the handlers take it: they call `get` on it. -/
def handleParams (setup : Setup) (s : Server) (method : String) (handler : Handler)
    (params : Value) : Server × Except Raised Value :=
  match params with
  | .dict params =>
    if idempotentMethods.contains method then s.idempotent setup method handler params
    else s.run setup handler params
  | _ => (s, .error (.exception .attributeError))

/-- `handle`; a method that is no text leaves it with an exception. -/
def Server.handle (setup : Setup) (s : Server) (request : Fields) : Server × Except Error Value :=
  let rid := field request "id"
  if !(field request "jsonrpc").eq (.str "2.0") then
    (s, .ok (respond rid (.error (.rpc {
      type := .internal, message := .str "jsonrpc must be \"2.0\"" }))))
  else
    let method := field request "method"
    let notFound : Value := .dict [("jsonrpc", .str "2.0"), ("id", rid),
      ("error", .dict [("code", .int methodNotFound),
        ("message", .str ("method not found: " ++ method.repr setup.quote)),
        ("retryable", .bool false)])]
    if !method.truthy then (s, .ok notFound)
    else
      match method with
      | .str name =>
        match handlerOf name with
        | none => (s, .ok notFound)
        | some handler =>
          let (s, outcome) :=
            handleParams setup s name handler ((field request "params").orElse (.dict []))
          (s, .ok (respond rid outcome))
      | _ => (s, .error .attributeError)

end Lnpl.Protocol
