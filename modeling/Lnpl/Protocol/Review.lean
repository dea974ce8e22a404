import Lnpl.Protocol.Invariants

/-!
# The reviewer

`Reviewer.decide` assesses a proposal against the document of the moment, and reports its decision.
The assessment is a second gate, behind the one of `ir.propose`.
-/

namespace Lnpl.Protocol

open Lnpl.Lib Lnpl.Lib.Py

/-! ### Calls -/

/-- `call`: the result of a request, or the error that it raises; `_seq` is not read from the
answer. -/
def Server.call (setup : Setup) (s : Server) (method : String) (params : Fields) :
    Server × Except Value Value :=
  let request := [("jsonrpc", .str "2.0"), ("id", .none), ("method", .str method),
    ("params", .dict params)]
  match s.handle setup request with
  | (s, .ok (.dict response)) =>
    match field? response "error" with
    | some e => (s, .error e)
    | none => (s, .ok (field response "result"))
  -- no answer is anything but a dict, and no exception leaves a method that is a text
  | (s, _) => (s, .error .none)

/-! ### Rulings -/

/-- Why an assessment stops: something is raised, or the proposal is rejected. -/
inductive Ruling where
  | raised (e : Raised)
  | rejected (why : String)

/-- What a statement raises, in an assessment. -/
def raising {α : Type} : Except Raised α → Except Ruling α
  | .ok a => .ok a
  | .error e => .error (.raised e)

instance : MonadLift (Except Raised) (Except Ruling) := ⟨raising⟩

instance : MonadLift (Except Error) (Except Ruling) := ⟨fun x => raising (lift x)⟩

/-- `return False, why`. -/
def reject {α : Type} (why : String) : Except Ruling α := .error (.rejected why)

/-! ### References -/

/-- `_refs_in`, a set. -/
def refsIn (node : Option Node) (name : String) : List String :=
  match node with
  | none => []
  | some node =>
    match field node name with
    | .list items => items.filterMap Value.str?
    | .str s => [s]
    | _ => []

/-- `sorted(_refs_in(old, field) - _refs_in(node, field))`. -/
def goneRefs (old node : Node) (name : String) : List String :=
  let kept := refsIn (some node) name
  sortTexts (((refsIn (some old) name).filter fun ref => !kept.contains ref).dedup)

/-- `sorted(REFERENCE_KEYS)`. -/
def sortedReferenceKeys : List String := sortTexts referenceKeys

/-! ### Provenance -/

/-- A character of `[a-z0-9-]`. -/
def isDocChar (ch : Char) : Bool :=
  ('a' ≤ ch && ch ≤ 'z') || ('0' ≤ ch && ch ≤ '9') || ch = '-'

/-- A character of `[a-z0-9.]`. -/
def isNodeChar (ch : Char) : Bool :=
  ('a' ≤ ch && ch ≤ 'z') || ('0' ≤ ch && ch ≤ '9') || ch = '.'

/-- `\d+` for every part of a version, with dots between them; `digit` is `\d`, which no dot is. -/
def isVersion (digit : Char → Bool) (parts : Nat) (text : List Char) : Bool :=
  let rest := text.dropWhile digit
  !(text.takeWhile digit).isEmpty &&
    match parts, rest with
    | 0, rest => rest.isEmpty
    | parts + 1, '.' :: rest => isVersion digit parts rest
    | _ + 1, _ => false

/-- `kb:[a-z0-9-]+@\d+\.\d+\.\d+|ir:[a-z][a-z0-9.]*`, of a whole text. -/
def isSource (digit : Char → Bool) (text : List Char) : Bool :=
  match text with
  | 'k' :: 'b' :: ':' :: rest =>
    !(rest.takeWhile isDocChar).isEmpty &&
      match rest.dropWhile isDocChar with
      | '@' :: version => isVersion digit 2 version
      | _ => false
  | 'i' :: 'r' :: ':' :: first :: rest => 'a' ≤ first && first ≤ 'z' && rest.all isNodeChar
  | _ => false

/-- `_SOURCE_FORM.match`: `$` also matches before a newline at the end. -/
def sourceForm (digit : Char → Bool) (source : String) : Bool :=
  isSource digit source.toList ||
    (source.toList.getLast? = some '\n' && isSource digit source.toList.dropLast)

/-- `_source_resolves`. -/
def sourceResolves (setup : Setup) (source : String) (existing : Nodes) : Except Error Bool :=
  let rest := source.toList.drop 3
  if "kb:".toList.isPrefixOf source.toList then
    setup.verify (.str (String.ofList (rest.takeWhile (· ≠ '@'))))
      (.str (String.ofList ((rest.dropWhile (· ≠ '@')).drop 1)))
  else .ok (existing.lookup (.str (String.ofList rest))).isSome

/-! ### The checks of an assessment -/

/-- `next((n for n in nodes if n.get("id") == id), None)`. -/
def firstNamed (nodes : List Node) (id : String) : Option Node :=
  nodes.find? fun node => (field node "id").eq (.str id)

/-- One declared child. -/
def assessAttached (setup : Setup) (nodes : List Node) (authored : List Key) (parent : String)
    (parentKind : Value) (child : String) : Except Ruling Unit := do
  if !authored.contains (.str child) then
    reject ("attach: " ++ child ++ " was not authored by this proposal — a proposal may attach " ++
      "only a node it wrote (RFC-0010)")
  let childKind :=
    match firstNamed nodes child with
    | some node => field node "kind"
    | none => .none
  if ← kindIn constraintKinds childKind then return ()
  if !(← kindIn (← childrenAllowedOf parentKind) childKind) then
    reject ("attach: a " ++ parentKind.text setup.quote ++ " may not own a " ++
      childKind.text setup.quote ++ " (RFC-0001 노드 카탈로그; RFC-0004 §S2 V5): " ++ child ++
      " under " ++ parent)

/-- One parent of `intent.attach`. -/
def assessAttachments (setup : Setup) (existing : Nodes) (nodes : List Node) (authored : List Key)
    (attachment : String × List String) : Except Ruling Unit := do
  let (parent, children) := attachment
  let parentKind :=
    match firstNamed nodes parent with
    | some node => field node "kind"
    | none => kindOf existing parent
  (sortTexts children).forM (assessAttached setup nodes authored parent parentKind)

/-- The declared children of a node. -/
def declaredFor (attachMap : List (String × List String)) (node : Node) : List String :=
  match field node "id" with
  | .str id => (attachMap.lookup id).getD []
  | _ => []

/-- A node that the role may propose, or that it only attaches to. -/
def withinRights (allowed : List String) (existing declaredKinds : Nodes)
    (attachMap : List (String × List String)) (node : Node) : Except Raised Bool := do
  if ← kindIn allowed (field node "kind") then return true
  let declared := declaredFor attachMap node
  if declared.isEmpty then return false
  let key ← (field node "id").hash
  if !(← referenceOnlyEdit node (existing.lookup key) declared declaredKinds) then return false
  let origin := (← ((field node "meta").orElse (.dict [])).get "origin").orElse (.str "")
  match origin with
  | .str origin => return "agent:".toList.isPrefixOf origin.toList
  | _ => .error (.exception .attributeError)

/-- The rights of the role. -/
def assessRights (role : String) (allowed : List String)
    (existing declaredKinds : Nodes) (attachMap : List (String × List String))
    (nodes : List Node) : Except Ruling Unit := do
  let outside ← (nodes.filterM fun node => do
    return !(← withinRights allowed existing declaredKinds attachMap node) : Except Raised _)
  if outside.isEmpty then return ()
  let kinds ← (outside.mapM fun node => (field node "kind").hash : Except Error _)
  let kinds ← (sortKeys kinds.dedup : Except Error _)
  reject ("rights: " ++ role ++ " may not propose " ++ (← (joinKeys ", " kinds : Except Error _)))

/-- What is wrong with the source of a node. -/
def badSource (setup : Setup) (digit : Char → Bool) (existing : Nodes) (node : Node) :
    Except Raised (Option String) := do
  if (existing.lookup (← idKey node)).isSome then return none
  let source ← ((field node "meta").orElse (.dict [])).get "source"
  let id := (field node "id").text setup.quote
  let bad := some (id ++ " (" ++ source.repr setup.quote ++ ")")
  if !source.truthy then return bad
  match source with
  | .str text =>
    if !sourceForm digit text then return bad
    if ← sourceResolves setup text existing then return none
    return some (id ++ " (" ++ text ++ " resolves to nothing)")
  | _ => .error (.exception .typeError)

/-- The provenance of the new nodes. -/
def assessSources (setup : Setup) (digit : Char → Bool) (existing : Nodes) (nodes : List Node) :
    Except Ruling Unit := do
  let bad ← (nodes.filterMapM (badSource setup digit existing) : Except Raised _)
  if !bad.isEmpty then
    reject ("provenance: new node(s) need a meta.source that resolves — `kb:<id>@<version>` " ++
      "naming a document at that exact version, or `ir:<node id>` present in the document: " ++
      ", ".intercalate bad)

/-- `declared_drops`; what was put last comes first. -/
abbrev Drops := List ((Key × String) × String)

/-- `(node["id"], ref) in move_map`. -/
def moveOf (moveMap : List ((String × String) × String)) (id : Value) (ref : String) :
    Option String :=
  match id with
  | .str id => moveMap.lookup (id, ref)
  | _ => none

/-- One reference that a node no longer has in a field. -/
def assessDrop (setup : Setup) (moveMap : List ((String × String) × String)) (node : Node)
    (name : String) (drops : Drops) (ref : String) : Except Ruling Drops := do
  let key ← idKey node
  if (moveOf moveMap (field node "id") ref).isNone then
    reject ("removal: replacing " ++ (field node "id").text setup.quote ++ " would drop " ++ ref ++
      " from `" ++ name ++ "` without a declared move — `ir.propose` expresses a move by " ++
      "declaring it in `intent`, and refuses an undeclared removal (RFC-0010 " ++
      "§Methods/ir.propose)")
  return ((key, ref), name) :: drops

/-- The kind and the references of a node that is replaced. -/
def assessReplaced (setup : Setup) (existing : Nodes)
    (moveMap : List ((String × String) × String)) (drops : Drops) (node : Node) :
    Except Ruling Drops := do
  match existing.lookup (← idKey node) with
  | none => return drops
  | some old =>
    if !(field node "kind").eq (field old "kind") then
      let id := (field node "id").text setup.quote
      reject ("kind: " ++ id ++ " is a " ++ (field old "kind").text setup.quote ++
        " in the document and this would make it a " ++ (field node "kind").text setup.quote ++
        " — `ir.propose` replaces a node, it does not swap one out for another kind (RFC-0010 " ++
        "§Methods/ir.propose)")
    sortedReferenceKeys.foldlM (fun drops name =>
      (goneRefs old node name).foldlM (assessDrop setup moveMap node name) drops) drops

/-- One declared move. -/
def assessMove (existing merged : Nodes) (drops : Drops) (move : (String × String) × String) :
    Except Ruling Unit := do
  let ((source, ref), target) := move
  match drops.lookup (.str source, ref) with
  | none =>
    reject ("move: " ++ source ++ " does not give up " ++ ref ++ ", so there is nothing to move " ++
      "(RFC-0010)")
  | some name =>
    if !(refsIn (merged.lookup (.str target)) name).contains ref then
      reject ("move: " ++ target ++ " must reference " ++ ref ++ " in `" ++ name ++
        "`, the field it left (RFC-0010)")
    if (refsIn (existing.lookup (.str target)) name).contains ref then
      reject ("move: " ++ target ++ " already referenced " ++ ref ++ " in `" ++ name ++
        "`, so nothing was transferred — a declared move must land somewhere new (RFC-0010)")

/-- `((from, node), to) <= ((from', node'), to')`, of different keys. -/
def moveLE (a b : (String × String) × String) : Bool :=
  a.1.1 < b.1.1 || (a.1.1 = b.1.1 && a.1.2 ≤ b.1.2)

/-- The structure and the schema of the merged document. -/
def assessMerged (setup : Setup) (doc : Document) (existing merged : Nodes) (nodes : List Node) :
    Except Ruling Unit := do
  match ← (structureFault setup.quote merged : Except Error _) with
  | some fault => reject fault
  | none =>
    match setup.validate with
    | none => return ()
    | some validate =>
      let kept ← (doc.nodes.mapM fun node => return (merged.lookup (← idKey node)).getD []
        : Except Error _)
      let added ← (nodes.filterM fun node => return (existing.lookup (← idKey node)).isNone
        : Except Error _)
      match validate { doc with nodes := kept ++ added } with
      | .ok () => return ()
      | .error text => reject ("schema: merged document would be invalid (" ++ text ++ ")")

/-- The checks of `_assess`, in their order. -/
def assessProposal (setup : Setup) (digit : Char → Bool) (doc : Document) (proposal : Proposal) :
    Except Ruling Unit := do
  let nodes := proposal.nodes
  let existing ← (byId doc.nodes : Except Error _)
  let intent := proposal.intent.orElse (.dict [])
  let attachMap ← attachments setup.quote intent
  let moveMap ← moves setup.quote intent
  let ids ← (nodes.mapM idKey : Except Error _)
  let authored := ids.filter fun key => (existing.lookup key).isNone
  (attachMap.insertionSort fun a b => a.1 ≤ b.1).forM
    (assessAttachments setup existing nodes authored)
  let allowed :=
    match roles.lookup proposal.role with
    | some spec => spec.propose
    | none => []
  let declaredKinds ← (byId nodes : Except Error _)
  assessRights proposal.role allowed existing declaredKinds attachMap nodes
  assessSources setup digit existing nodes
  let drops ← nodes.foldlM (assessReplaced setup existing moveMap) []
  let merged ← (nodes.foldlM (fun merged node => return setNode (← idKey node) node merged) existing
    : Except Error _)
  (moveMap.insertionSort fun a b => moveLE a b).forM (assessMove existing merged drops)
  assessMerged setup doc existing merged nodes

/-- `_assess`. -/
def Server.assess (setup : Setup) (digit : Char → Bool) (s : Server) (pid : Value) :
    Except Raised (Bool × String) :=
  match s.proposal pid with
  | .error e => .error (.exception e)
  | .ok none => .ok (false, "unknown: no such proposal " ++ pid.repr setup.quote)
  | .ok (some proposal) =>
    match assessProposal setup digit s.doc proposal with
    | .ok () =>
      .ok (true, "assessed: rights, resolved provenance, no removal, references, ownership, " ++
        "acyclicity, schema all clear")
    | .error (.rejected why) => .ok (false, why)
    | .error (.raised e) => .error e

/-- The report of a decision. -/
def decisionParams (reviewTaskId pid : Value) (approve : Bool) (reason : String) : Fields :=
  [("task_id", reviewTaskId),
    ("payload", .dict [("proposal_id", pid),
      ("decision", .str (if approve then "approved" else "rejected")), ("reason", .str reason)])]

/-- `Reviewer.decide`, without an override; what is raised in the assessment is `none`. -/
def Server.review (setup : Setup) (digit : Char → Bool) (s : Server) (reviewTaskId pid : Value) :
    Server × Option (Except Value Value) :=
  match s.assess setup digit pid with
  | .error _ => (s, none)
  | .ok (approve, reason) =>
    let (s, result) := s.call setup "agent.report" (decisionParams reviewTaskId pid approve reason)
    (s, some result)

end Lnpl.Protocol
