import Lnpl.Lib.SortedJson
import Lnpl.Protocol.Review

/-!
# Approvals in any order

A proposal carries whole nodes, which its author wrote against the document of that moment; they
take the place of the nodes of the moment of the approval.  A history keeps, of each proposal, the
document that it was made against, and of each approval, what it did to the document.
-/

namespace Lnpl.Protocol

open Lnpl.Lib Lnpl.Lib.Py

/-! ### Fields of nodes -/

/-- The node of an id: the last one, as in `_nodes_by_id`. -/
def nodeOf (nodes : List Node) (key : Key) : Option Node :=
  nodes.reverse.find? fun node => idKey node = .ok key

/-- A field of the node of an id, up to the order of the keys of its dicts; `none` is a field that
is absent, or absent with its node. -/
def valueAt (nodes : List Node) (key : Key) (name : String) : Option Value :=
  (nodeOf nodes key).bind fun node => (field? node name).map Value.sorted

/-! ### Histories -/

/-- The document before an approval, and after it. -/
structure Edit where
  before : Document
  after : Document

/-- A server, with the documents that its proposals were made against, and the approvals, first to
last. -/
structure History where
  server : Server
  bases : List (String × Document) := []
  edits : List Edit := []

/-- A request, or a review: `Reviewer.decide`, without an override. -/
inductive Deed where
  | ask (request : Fields)
  | review (reviewTaskId pid : Value)

/-- The server that a deed leaves. -/
def Deed.run (setup : Setup) (digit : Char → Bool) (s : Server) : Deed → Server
  | .ask request => (s.handle setup request).1
  | .review reviewTaskId pid => (s.review setup digit reviewTaskId pid).1

/-- One deed; a proposal that is new was made against the document before it, and where one more is
applied, the deed has approved it. -/
def History.step (setup : Setup) (digit : Char → Bool) (h : History) (deed : Deed) :
    Option History :=
  let s := h.server
  let t := deed.run setup digit s
  some {
    server := t
    bases := h.bases ++ (t.proposals.drop s.proposals.length).map fun p => (p.id, s.doc)
    edits :=
      if t.applied.length = s.applied.length then h.edits
      else h.edits ++ [{ before := s.doc, after := t.doc }] }

/-- Nothing is proposed yet. -/
def History.start (doc : Document) : History where
  server := { doc := doc }

/-- The deed approves the proposal. -/
def Deed.Approves (setup : Setup) (digit : Char → Bool) (s : Server) (deed : Deed) (p : Proposal) :
    Prop :=
  s.proposal (.str p.id) = .ok (some p) ∧
    (deed.run setup digit s).applied = s.applied ++ [p.id]

/-- Whatever is decided, the reviewer decides it. -/
def ByReviewer (_ : History) (deed : Deed) : Prop :=
  match deed with
  | .ask request => requestHandler request ≠ some .agentReport
  | .review _ _ => True

/-! ### The law -/

/-- The author of the proposal has left the field as it is in `base`: behind the nodes of `base`,
those of the proposal are in their place. -/
def LeftAlone (p : Proposal) (base : Document) (key : Key) (name : String) : Prop :=
  valueAt (base.nodes ++ p.nodes) key name = valueAt base.nodes key name

/-- What earlier approvals have changed, and is still in place, stays in place where the author, who
read `base`, has left the field alone. -/
def KeepsEdits (h : History) (p : Proposal) (base after : Document) : Prop :=
  ∀ edit ∈ h.edits, ∀ key name,
    valueAt edit.after.nodes key name ≠ valueAt edit.before.nodes key name →
    valueAt h.server.doc.nodes key name = valueAt edit.after.nodes key name →
    LeftAlone p base key name →
      valueAt after.nodes key name = valueAt edit.after.nodes key name

/-- The deed is no approval, or it loses no edit. -/
def LosesNoEdit (setup : Setup) (digit : Char → Bool) (h : History) (deed : Deed) : Prop :=
  ∀ p base, deed.Approves setup digit h.server p → h.bases.lookup p.id = some base →
    KeepsEdits h p base (deed.run setup digit h.server).doc

/-- The law, for every document, and every sequence of deeds that all meet `C`. -/
def EditLaw (setup : Setup) (digit : Char → Bool) (C : History → Deed → Prop) : Prop :=
  ∀ doc h, Reaches (History.step setup digit) C (.start doc) h →
    ∀ deed, C h deed → LosesNoEdit setup digit h deed

/-! ### The condition -/

/-- Every field that the author has left alone, of a node of the proposal, is still in the document
as it was when the proposal was made. -/
def Fresh (h : History) (p : Proposal) (base : Document) : Prop :=
  ∀ node ∈ p.nodes, ∀ key, idKey node = .ok key → ∀ name, LeftAlone p base key name →
    valueAt h.server.doc.nodes key name = valueAt base.nodes key name

/-- The deed is no approval, or one of a proposal that is fresh. -/
def ApprovesFresh (setup : Setup) (digit : Char → Bool) (h : History) (deed : Deed) : Prop :=
  ∀ p base, deed.Approves setup digit h.server p → h.bases.lookup p.id = some base →
    Fresh h p base

end Lnpl.Protocol
