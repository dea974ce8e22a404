import Lnpl.Protocol.Review

/-!
# What an assessed approval promises

The document keeps its nodes and their kinds, and every reference, unless it was declared as moved
and lands in the same field of its destination; a node outside the rights of the role is only
attached to; and a new node is within the rights, and grounded.
-/

namespace Lnpl.Protocol

open Lnpl.Lib Lnpl.Lib.Py

/-! ### Approvals -/

/-- The proposal is one that `ir.propose` has recorded, on whatever document. -/
def Recorded (setup : Setup) (p : Proposal) : Prop :=
  ∃ doc params, checkProposal setup doc params = .ok (p.role, p.nodes, p.intent)

/-- The reviewer approves the proposal, and leaves the document `after`. -/
structure Approves (setup : Setup) (digit : Char → Bool) (s : Server) (reviewTaskId pid : Value)
    (p : Proposal) (after : Document) : Prop where
  isProposal : s.proposal pid = .ok (some p)
  assessed : ∃ why, s.assess setup digit pid = .ok (true, why)
  answered : ∃ result, (s.review setup digit reviewTaskId pid).2 = some (.ok result)
  isAfter : (s.review setup digit reviewTaskId pid).1.doc = after

/-! ### What nodes refer to -/

/-- The fields that `node_references` reads. -/
def referenceFields : List String := referenceKeys ++ ["source.ref"]

/-- What `node_references` reads of a field. -/
def refersTo (node : Node) (name : String) : List Key :=
  let values :=
    if name = "children" then
      match childrenOf node with
      | .ok children => children
      | .error _ => []
    else if name = "source.ref" then sourceReferences node
    else namedReferences node name
  values.filterMap Value.key?

/-- The moves that the proposal declares. -/
def declaredMoves (setup : Setup) (p : Proposal) : List ((String × String) × String) :=
  match moves setup.quote (p.intent.orElse (.dict [])) with
  | .ok moveMap => moveMap
  | .error _ => []

/-- A reference of a node, which the proposal declares as moved, is in the same field of one of
`nodes`, the destination, and was not there before. -/
def Lands (setup : Setup) (p : Proposal) (before : Document) (nodes : List Node) (id : Key)
    (name : String) (ref : Key) : Prop :=
  ∃ source text target, id = .str source ∧ ref = .str text ∧
    (declaredMoves setup p).lookup (source, text) = some target ∧
    (∃ dest ∈ nodes, idKey dest = .ok (.str target) ∧ ref ∈ refersTo dest name) ∧
    ∀ dest ∈ before.nodes, idKey dest = .ok (.str target) → ref ∉ refersTo dest name

/-- What the role may propose. -/
def rightsOf (role : String) : List String :=
  match roles.lookup role with
  | some spec => spec.propose
  | none => []

/-- The id is one that the proposal brings. -/
def authoredBy (p : Proposal) (before : Document) (key : Key) : Bool :=
  p.nodes.any (fun node => idKey node = .ok key) && !before.nodes.any fun node => idKey node = .ok key

/-- The node is the old one, up to its `meta.origin`, with references to authored nodes put
between those it has. -/
structure AttachesOnly (p : Proposal) (before : Document) (old new : Node) : Prop where
  rest : (Value.dict (comparable new)).eq (.dict (comparable old)) = true
  references : ∀ name ∈ referenceKeys,
    (refersTo new name).filter (fun key => !authoredBy p before key) = refersTo old name

/-- The `meta.source` of the node names a document of the knowledge base at that version, or a node
of the document. -/
def Grounded (setup : Setup) (before : Document) (node : Node) : Prop :=
  ∃ info source, field node "meta" = .dict info ∧ field info "source" = .str source ∧
    ((∃ docId version, source = "kb:" ++ docId ++ "@" ++ version ∧
        setup.verify (.str docId) (.str version) = .ok true) ∨
      ∃ id, source = "ir:" ++ id ∧ ∃ old ∈ before.nodes, idKey old = .ok (.str id))

/-! ### The law -/

/-- What an approval leaves of the document, and what it adds. -/
structure SoundApproval (setup : Setup) (p : Proposal) (before after : Document) : Prop where
  kept : ∀ old ∈ before.nodes, ∃ new ∈ after.nodes, idKey new = idKey old ∧
    (field new "kind").hash = (field old "kind").hash
  references : ∀ old ∈ before.nodes, ∀ new ∈ after.nodes, ∀ key, idKey old = .ok key →
    idKey new = .ok key → ∀ name ∈ referenceFields, ∀ ref ∈ refersTo old name,
      ref ∈ refersTo new name ∨ Lands setup p before after.nodes key name ref
  outside : ∀ old ∈ before.nodes, ∀ new ∈ after.nodes, idKey new = idKey old →
    kindIn (rightsOf p.role) (field old "kind") = .ok false →
      new = old ∨ AttachesOnly p before old new
  added : ∀ new ∈ after.nodes, (∀ old ∈ before.nodes, idKey old ≠ idKey new) →
    kindIn (rightsOf p.role) (field new "kind") = .ok true ∧ Grounded setup before new

/-! ### The condition -/

/-- The proposed node that takes the place of a node. -/
def replacement (nodes : List Node) (old : Node) : Option Node :=
  nodes.reverse.find? fun node => idKey node = idKey old

/-- The field of a reference whose transfer is checked: the last one that gives it up. -/
def checkedField (old new : Node) (ref : Key) : Option String :=
  (sortedReferenceKeys.filter fun name => (goneRefs old new name).any fun text =>
    ref = .str text).getLast?

/-- A list, or nothing. -/
def isListed : Value → Bool
  | .list _ | .none => true
  | _ => false

/-- A reference that a node gives up in a field has its transfer checked: the field is the last one
that gives it up, and of `children`, all are lists. -/
def Checked (before : Document) (p : Proposal) (old new : Node) (name : String) (ref : Key) : Prop :=
  checkedField old new ref = some name ∧
    (name = "children" → ∀ node ∈ before.nodes ++ p.nodes, isListed (field node "children") = true)

/-- Where the assessment does not look, the proposal does nothing: a reference that is given up
unchecked lands all the same, and a reference field that is no list, of a node outside the rights,
keeps what it refers to. -/
structure Covered (setup : Setup) (before : Document) (p : Proposal) : Prop where
  references : ∀ old ∈ before.nodes, ∀ new, replacement p.nodes old = some new → ∀ key,
    idKey old = .ok key → ∀ name ∈ referenceFields, ∀ ref ∈ refersTo old name,
      ref ∉ refersTo new name → ¬Checked before p old new name ref →
        Lands setup p before p.nodes key name ref
  outside : ∀ old ∈ before.nodes, ∀ new, replacement p.nodes old = some new →
    kindIn (rightsOf p.role) (field old "kind") = .ok false → new ≠ old →
      ∀ name ∈ referenceKeys, isListed (field old name) = false →
        (refersTo new name).filter (fun key => !authoredBy p before key) = refersTo old name

end Lnpl.Protocol
