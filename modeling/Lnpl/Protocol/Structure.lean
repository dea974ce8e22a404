import Lnpl.Lib.PyValues

/-!
# Structure rules of a document

What `_structure_fault` checks of the nodes of a merged document, by their ids: unique ids,
references that resolve, one owner for every node that needs one, acyclic ownership, what each kind
may own, and how much a guard guards.
-/

namespace Lnpl.Protocol

open Lnpl.Lib.Py

/-- A node of a document, whatever it holds. -/
abbrev Node := Fields

/-- The items of a dict of nodes by their ids. -/
abbrev Nodes := List (Key × Node)

/-- `nodes[key] = node`. -/
def setNode (key : Key) (node : Node) : Nodes → Nodes
  | [] => [(key, node)]
  | (key', node') :: nodes =>
    if key' = key then (key, node) :: nodes else (key', node') :: setNode key node nodes

/-- `hash(node["id"])`. -/
def idKey (node : Node) : Except Error Key := do
  (← item node "id").hash

/-- `{n["id"]: n for n in nodes}`. -/
def byId (nodes : List Node) : Except Error Nodes :=
  nodes.foldlM (fun merged node => return setNode (← idKey node) node merged) []

/-! ### Tables -/

/-- `NAMED_REF_FIELDS`. -/
def namedRefFields : List String := ["requires", "constraints", "entity", "event"]

/-- `REFERENCE_KEYS`, a set. -/
def referenceKeys : List String := "children" :: namedRefFields

/-- `DECLARATION_KINDS`. -/
def declarationKinds : List String := ["Entity", "Service", "Workflow", "Event", "Capability"]

/-- `CONSTRAINT_KINDS`. -/
def constraintKinds : List String := ["Policy", "Security", "Performance"]

/-- `ENTRY_KINDS`. -/
def entryKinds : List String := declarationKinds ++ constraintKinds

/-- `CHILDREN_ALLOWED`. -/
def childrenAllowed : List (String × List String) :=
  [("Entity", ["Validation"]),
   ("Service", ["Workflow", "Pipeline", "BusinessRule"]),
   ("Workflow", ["WorkflowStep", "Guard", "Concurrency", "Pipeline"]),
   ("Event", []),
   ("Capability", []),
   ("BusinessRule", []),
   ("Validation", []),
   ("WorkflowStep", ["Validation", "BusinessRule", "NetworkCall", "RepositoryCall", "CacheAccess",
      "Transaction", "Authorization", "EventEmit", "Concurrency", "Pipeline"]),
   ("Guard", ["WorkflowStep", "Concurrency", "Pipeline"]),
   ("Pipeline", ["WorkflowStep"]),
   ("Concurrency", ["WorkflowStep"]),
   ("NetworkCall", []),
   ("RepositoryCall", []),
   ("CacheAccess", []),
   ("Transaction", ["RepositoryCall", "NetworkCall", "CacheAccess", "EventEmit", "BusinessRule",
      "Validation"]),
   ("Authorization", []),
   ("EventEmit", []),
   ("Policy", []),
   ("Security", []),
   ("Performance", [])]

/-- `kind in kinds`, for a set of texts. -/
def kindIn (kinds : List String) (kind : Value) : Except Error Bool := do
  match ← kind.hash with
  | .str s => return kinds.contains s
  | _ => return false

/-- `CHILDREN_ALLOWED.get(kind, set())`. -/
def childrenAllowedOf (kind : Value) : Except Error (List String) := do
  match ← kind.hash with
  | .str s => return (childrenAllowed.lookup s).getD []
  | _ => return []

/-! ### References -/

/-- `node.get("children", [])`, run over. -/
def childrenOf (node : Node) : Except Error (List Value) :=
  ((field? node "children").getD (.list [])).iterate

/-- What a named field refers to. -/
def namedReferences (node : Node) (name : String) : List Value :=
  match field node name with
  | .list items => items.filter fun item => item.str?.isSome
  | .str s => [.str s]
  | _ => []

/-- The reference of a `source`. -/
def sourceReferences (node : Node) : List Value :=
  match field node "source" with
  | .dict source =>
    match field source "ref" with
    | .str s => [.str s]
    | _ => []
  | _ => []

/-- `node_references`. -/
def nodeReferences (node : Node) : Except Error (List Value) := do
  let children ← childrenOf node
  return children ++ namedRefFields.flatMap (namedReferences node) ++ sourceReferences node

/-! ### Ownership cycles -/

inductive Colour where
  | white
  | grey
  | black
  deriving DecidableEq, Repr

/-- `while stack`, one element of a `for kid in kids` at a time: the colours when the stack is
empty, or a cycle; `none` if `fuel` does not suffice.  `path` has the root first. -/
def walk (merged : Nodes) :
    (fuel : Nat) → (colour : Key → Colour) → (path : List Key) → (stack : List (Key × List Value)) →
    Except Error (Option ((Key → Colour) ⊕ List Key))
  | 0, _, _, _ => .ok none
  | _ + 1, colour, _, [] => .ok (some (.inl colour))
  | fuel + 1, colour, path, (nodeId, []) :: stack =>
    walk merged fuel (fun key => if key = nodeId then .black else colour key) path.dropLast stack
  | fuel + 1, colour, path, (nodeId, kid :: kids) :: stack => do
    let key ← kid.hash
    match merged.lookup key with
    | none => walk merged fuel colour path ((nodeId, kids) :: stack)
    | some child =>
      match colour key with
      | .grey => return some (.inr (path.dropWhile (· ≠ key) ++ [key]))
      | .white =>
        let grandchildren ← childrenOf child
        walk merged fuel (fun key' => if key' = key then .grey else colour key') (path ++ [key])
          ((key, grandchildren) :: (nodeId, kids) :: stack)
      | .black => walk merged fuel colour path ((nodeId, kids) :: stack)

/-- The turns that a walk can take: every child once, and every node once more. -/
def walkFuel (merged : Nodes) : Nat :=
  (merged.map fun entry =>
    match childrenOf entry.2 with
    | .ok children => children.length + 1
    | .error _ => 1).sum + 1

/-- The loop over the roots. -/
def walkRoots (merged : Nodes) : (colour : Key → Colour) → List Key → Except Error (List Key)
  | _, [] => .ok []
  | colour, root :: roots =>
    if colour root ≠ .white then walkRoots merged colour roots
    else do
      let children ← childrenOf ((merged.lookup root).getD [])
      let grey := fun key => if key = root then .grey else colour key
      match ← walk merged (walkFuel merged) grey [root] [(root, children)] with
      | some (.inl colour) => walkRoots merged colour roots
      | some (.inr cycle) => return cycle
      | none => return []

/-- `_ownership_cycle`. -/
def ownershipCycle (merged : Nodes) : Except Error (List Key) := do
  walkRoots merged (fun _ => .white) (← sortKeys (merged.map Prod.fst))

/-! ### Faults -/

variable (quote : String → String)

/-- V1: id uniqueness. -/
def idFault (merged : Nodes) : Except Error (Option String) := do
  let allIds ← merged.mapM fun entry => idKey entry.2
  let repeated ← sortKeys (allIds.dedup.filter fun key => 1 < allIds.count key)
  if repeated = [] then return none
  let ids ← joinKeys ", " repeated
  return some ("id_unique: node id(s) " ++ ids ++ " appear more than once in the document " ++
    "(RFC-0001 공통 필드, RFC-0004 V1)")

/-- The references that nothing in the document answers to. -/
def danglingOf (merged : Nodes) : Except Error (List Key) := do
  let references ← merged.mapM fun entry => do (← nodeReferences entry.2).mapM Value.hash
  return (references.flatten.filter fun key => (merged.lookup key).isNone).dedup

/-- Rule 6: every reference resolves. -/
def danglingFault (merged : Nodes) : Except Error (Option String) := do
  let dangling ← sortKeys (← danglingOf merged)
  if dangling = [] then return none
  let ids ← joinKeys ", " dangling
  return some ("dangling: unresolved reference(s) " ++ ids ++ " — every owning and named " ++
    "reference must resolve in the same document (RFC-0001 rule 6)")

/-- `sorted(merged.values(), key=lambda n: n["id"])`, of nodes by their ids. -/
def sortedNodes (merged : Nodes) : Except Error (List Node) := do
  return (← sortKeys (merged.map Prod.fst)).filterMap fun key => merged.lookup key

/-- Who owns what, and what is contested. -/
structure Owners where
  /-- the ids of the owners -/
  owners : List (Key × Value) := []
  contested : List String := []

/-- One reference of the `children` of a node. -/
def Owners.own (o : Owners) (nodeId ref : Value) : Except Error Owners := do
  let key ← ref.hash
  match o.owners.lookup key with
  | some owner =>
    let claim := ref.text quote ++ " (owned by " ++ owner.text quote ++ " and " ++
      nodeId.text quote ++ ")"
    return { o with contested := o.contested ++ [claim] }
  | none => return { o with owners := o.owners ++ [(key, nodeId)] }

def ownersOf (merged : Nodes) : Except Error Owners := do
  (← sortedNodes merged).foldlM (fun o node => do
    let nodeId ← item node "id"
    (← childrenOf node).foldlM (fun o ref => o.own quote nodeId ref) o) {}

/-- Rule 2: one owner. -/
def ownershipFault (merged : Nodes) : Except Error (Option String) := do
  let owners ← ownersOf quote merged
  if owners.contested = [] then return none
  return some ("ownership: " ++ ", ".intercalate (sortTexts owners.contested) ++
    " — a node may appear in at most one `children` list (RFC-0001 rule 2)")

/-- Rules 2 and 5: only Declaration and Constraint nodes may be unowned. -/
def orphanFault (merged : Nodes) : Except Error (Option String) := do
  let owners ← ownersOf quote merged
  let orphans ← merged.filterMapM fun entry => do
    if ← kindIn entryKinds (← item entry.2 "kind") then return none
    let key ← idKey entry.2
    return if (owners.owners.lookup key).isNone then some key else none
  let orphans ← sortKeys orphans
  if orphans = [] then return none
  let ids ← joinKeys ", " orphans
  return some ("orphan: nothing owns " ++ ids ++ " — only Declaration and Constraint nodes may " ++
    "be unowned (RFC-0001 rules 2, 5)")

/-- Rule 4: acyclic ownership. -/
def cycleFault (merged : Nodes) : Except Error (Option String) := do
  let cycle ← ownershipCycle merged
  if cycle = [] then return none
  let ids ← joinKeys " -> " cycle
  return some ("cycle: ownership loops through " ++ ids ++ " — the `children` graph must be " ++
    "acyclic (RFC-0001 rule 4)")

/-- V5 of one child. -/
def childFault (merged : Nodes) (node : Node) (childId : Value) : Except Error (Option String) := do
  match merged.lookup (← childId.hash) with
  | none => return none
  | some child =>
    let childKind := field child "kind"
    if !childKind.truthy then return none
    let parentKind := field node "kind"
    if ← kindIn (← childrenAllowedOf parentKind) childKind then return none
    let nodeId ← item node "id"
    return some ("v5_children: a " ++ parentKind.text quote ++ " may not own a " ++
      childKind.text quote ++ " (RFC-0001 §노드 카탈로그 children 허용; RFC-0004 §S2 V5): " ++
      childId.text quote ++ " under " ++ nodeId.text quote)

/-- V5: kind-specific children allowance. -/
def childrenFault (merged : Nodes) : Except Error (Option String) :=
  merged.findSomeM? fun entry => do
    (← childrenOf entry.2).findSomeM? (childFault quote merged entry.2)

/-- The guarded item, and at most one `otherwise` item of a `when` guard. -/
def guardFault (merged : Nodes) : Except Error (Option String) :=
  merged.findSomeM? fun entry => do
    if !(field entry.2 "kind").eq (.str "Guard") then return none
    let childrenCount := (← childrenOf entry.2).length
    let allowed := if (field entry.2 "mode").eq (.str "when") then [1, 2] else [1]
    if allowed.contains childrenCount then return none
    let nodeId ← item entry.2 "id"
    return some ("guard_cardinality: Guard " ++ nodeId.text quote ++ " has " ++
      toString childrenCount ++ " children; 1 required, or 2 with an `otherwise` item on a " ++
      "`when` guard (RFC-0001 §노드 카탈로그 Guard row, RFC-0060)")

/-- The checks of `_structure_fault`, in their order. -/
def structureChecks : List (Nodes → Except Error (Option String)) :=
  [idFault, danglingFault, ownershipFault quote, orphanFault quote, cycleFault, childrenFault quote,
   guardFault quote]

/-- `_structure_fault`: the first fault, or `none`. -/
def structureFault (merged : Nodes) : Except Error (Option String) :=
  (structureChecks quote).findSomeM? fun check => check merged

end Lnpl.Protocol
