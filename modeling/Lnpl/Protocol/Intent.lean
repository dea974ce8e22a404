import Lnpl.Protocol.Structure

/-!
# Errors, roles and intents of the agent protocol

What a role may propose, and what a proposal declares: the references it attaches, and those it
moves.  `reference_only_edit` is the one edit that a role may make outside its rights.
-/

namespace Lnpl.Protocol

open Lnpl.Lib.Py

/-! ### Errors -/

/-- The types of `ERRORS`. -/
inductive ErrorType where
  | irInvalid
  | kbVersionConflict
  | agentTimeout
  | proposalRejected
  | idempotencyInFlight
  | idempotencyMismatch
  | overloaded
  | ambiguousStep
  | internal
  deriving DecidableEq, Repr

def ErrorType.name : ErrorType → String
  | .irInvalid => "ir_invalid"
  | .kbVersionConflict => "kb_version_conflict"
  | .agentTimeout => "agent_timeout"
  | .proposalRejected => "proposal_rejected"
  | .idempotencyInFlight => "idempotency_in_flight"
  | .idempotencyMismatch => "idempotency_mismatch"
  | .overloaded => "overloaded"
  | .ambiguousStep => "ambiguous_step"
  | .internal => "internal"

/-- `ERRORS`: the code, and whether it is retryable. -/
def ErrorType.entry : ErrorType → Int × Bool
  | .irInvalid => (-32602, false)
  | .kbVersionConflict => (-32001, false)
  | .agentTimeout => (-32002, true)
  | .proposalRejected => (-32003, false)
  | .idempotencyInFlight => (-32010, true)
  | .idempotencyMismatch => (-32011, false)
  | .overloaded => (-32012, true)
  | .ambiguousStep => (-32013, false)
  | .internal => (-32603, false)

/-- `RESERVED["method_not_found"]`. -/
def methodNotFound : Int := -32601

/-- A structured protocol error.  The message of a rejection is the reason that the reviewer gave,
whatever it is. -/
structure RpcError where
  type : ErrorType
  message : Value
  details : Fields := []
  deriving Repr

/-- `to_error`. -/
def RpcError.toError (e : RpcError) : Value :=
  let err := [("code", .int e.type.entry.1), ("type", .str e.type.name),
    ("message", e.message), ("retryable", .bool e.type.entry.2)]
  .dict (if e.details.isEmpty then err else err ++ [("details", .dict e.details)])

/-- What a method raises. -/
inductive Raised where
  | rpc (e : RpcError)
  | exception (e : Error)
  deriving Repr

/-- What a statement raises, among a method's. -/
def lift {α : Type} : Except Error α → Except Raised α
  | .ok a => .ok a
  | .error e => .error (.exception e)

instance : MonadLift (Except Error) (Except Raised) := ⟨lift⟩

/-- `raise RpcError("ir_invalid", message)`. -/
def irInvalid {α : Type} (message : String) : Except Raised α :=
  .error (.rpc { type := .irInvalid, message := .str message })

/-! ### Roles -/

/-- `BEHAVIOR`. -/
def behavior : List String :=
  ["BusinessRule", "Validation", "WorkflowStep", "Pipeline", "Concurrency", "Guard"]

/-- `EFFECT`. -/
def effect : List String :=
  ["NetworkCall", "RepositoryCall", "CacheAccess", "Transaction", "Authorization", "EventEmit"]

/-- An entry of `ROLES`. -/
structure RoleSpec where
  propose : List String
  approve : Bool

/-- `ROLES`. -/
def roles : List (String × RoleSpec) :=
  [("Planner", { propose := [], approve := false }),
   ("Architect", { propose := declarationKinds ++ behavior, approve := false }),
   ("Coder", { propose := behavior ++ effect, approve := false }),
   ("Reviewer", { propose := [], approve := true }),
   ("Tester", { propose := behavior, approve := false }),
   ("PerformanceAnalyzer", { propose := constraintKinds, approve := false }),
   ("SecurityAuditor", { propose := constraintKinds ++ effect, approve := false }),
   ("RefactoringAgent", { propose := behavior ++ effect, approve := false }),
   ("ReleaseAgent", { propose := [], approve := false })]

/-- `role in ROLES`, and its entry. -/
def roleOf (role : Value) : Except Error (Option (String × RoleSpec)) := do
  match ← role.hash with
  | .str s => return (roles.lookup s).map fun spec => (s, spec)
  | _ => return none

/-! ### Intents -/

variable (quote : String → String)

/-- `_intent_entries` without the dict it builds: the texts of the required fields, entry by entry.
-/
def intentEntries (intent : Value) (key : String) (required : List String) :
    Except Raised (List (List String)) := do
  let fields ←
    match intent with
    | .none => pure []
    | .dict fields => pure fields
    | _ => irInvalid ("intent must be an object, got " ++ quote intent.typeName)
  let raw := (field fields key).orElse (.list [])
  match raw with
  | .list entries =>
    entries.mapM fun entry =>
      let texts :=
        match entry with
        | .dict entry => required.mapM fun name => (field entry name).str?
        | _ => none
      match texts with
      | some texts => .ok texts
      | none =>
        irInvalid ("each intent." ++ key ++ " entry needs string " ++ ", ".intercalate required)
  | _ => irInvalid ("intent." ++ key ++ " must be an array")

/-- `out.setdefault(parent, set()).add(child)`. -/
def attachTo (parent child : String) : List (String × List String) → List (String × List String)
  | [] => [(parent, [child])]
  | (parent', children) :: out =>
    if parent' = parent then (parent, children.insert child) :: out
    else (parent', children) :: attachTo parent child out

/-- `attachments`. -/
def attachments (intent : Value) : Except Raised (List (String × List String)) := do
  let entries ← intentEntries quote intent "attach" ["parent", "child"]
  return entries.foldl (fun out entry =>
    match entry with
    | [parent, child] => attachTo parent child out
    | _ => out) []

/-- `out[(source, node)] = target`. -/
def moveTo (source node target : String) :
    List ((String × String) × String) → List ((String × String) × String)
  | [] => [((source, node), target)]
  | (key, target') :: out =>
    if key = (source, node) then (key, target) :: out
    else (key, target') :: moveTo source node target out

/-- `moves`. -/
def moves (intent : Value) : Except Raised (List ((String × String) × String)) := do
  let entries ← intentEntries quote intent "move" ["node", "from", "to"]
  return entries.foldl (fun out entry =>
    match entry with
    | [node, source, target] => moveTo source node target out
    | _ => out) []

/-! ### Edits outside a role's rights -/

/-- `_comparable`. -/
def comparable (node : Node) : Fields :=
  let out := node.filter fun entry => !referenceKeys.contains entry.1 && entry.1 != "meta"
  match field node "meta" with
  | .dict «meta» =>
    let rest := «meta».filter fun entry => entry.1 != "origin"
    if rest.isEmpty then out else out ++ [("meta", .dict rest)]
  | .none => out
  | «meta» => out ++ [("meta", «meta»)]

/-- `ref not in allowed_new`, of a set of texts; of the empty tuple nothing is. -/
def remaining (allowedNew : Option (List String)) (references : List Value) :
    Except Error (List Value) :=
  match allowedNew with
  | none => .ok references
  | some allowedNew => references.filterM fun ref => return !(← kindIn allowedNew ref)

/-- The declared children that are of a Constraint kind. -/
def constraintReferences (declaredChildren : List String) (childKinds : Nodes) :
    Except Error (List String) :=
  declaredChildren.filterM fun ref =>
    match childKinds.lookup (.str ref) with
    | none => .ok false
    | some child => kindIn constraintKinds (field child "kind")

/-- The references of one field that `reference_only_edit` allows to be new. -/
def allowedNew (declaredChildren : List String) (childKinds : Nodes) (name : String) :
    Except Error (Option (List String)) :=
  if name = "children" then .ok (some declaredChildren)
  else if name = "constraints" && !childKinds.isEmpty then
    some <$> constraintReferences declaredChildren childKinds
  else .ok none

/-- One field of `REFERENCE_KEYS`. -/
def keepsReferences (proposed existing : Node) (declaredChildren : List String) (childKinds : Nodes)
    (name : String) : Except Error Bool := do
  let before := field existing name
  let after := field proposed name
  let allowed ← allowedNew declaredChildren childKinds name
  match after with
  | .list references =>
    let remaining ← remaining allowed references
    let before ← (before.orElse (.list [])).iterate
    return (Value.list remaining).eq (.list before)
  | _ => return after.eq before

/-- `reference_only_edit`; `childKinds` are the proposed nodes by their ids, whose kinds it reads.
The fields are compared in the order of the tuple; a set has none. -/
def referenceOnlyEdit (proposed : Node) (existing : Option Node) (declaredChildren : List String)
    (childKinds : Nodes) : Except Error Bool := do
  match existing with
  | none => return false
  | some existing =>
    if !(field proposed "kind").eq (field existing "kind") then return false
    if !(Value.dict (comparable proposed)).eq (.dict (comparable existing)) then return false
    referenceKeys.allM fun name =>
      keepsReferences proposed existing declaredChildren childKinds name

end Lnpl.Protocol
