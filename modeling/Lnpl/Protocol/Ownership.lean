import Lnpl.Lib.DepthFirst
import Lnpl.Protocol.Structure

/-!
# What the structure rules are for

A `NodeMap` is what the checks are run on: nodes by the ids that they carry, whose children are
ids.  It is well formed if every reference resolves and the children make it a forest over its
declarations and constraints, in which every kind owns what it may own and guards guard an item.
-/

namespace Lnpl.Protocol

open Lnpl.Lib Lnpl.Lib.Py

/-! ### Nodes by their ids -/

/-- The ids in the `children` of a node. -/
def childTexts (node : Node) : List String :=
  match (field? node "children").getD (.list []) with
  | .list items => items.filterMap Value.str?
  | _ => []

/-- The `kind` of a node, if it is a text. -/
def kindText (node : Node) : String := (field node "kind").str?.getD ""

/-- A map from ids to the nodes that carry them, with a kind and with ids as their children. -/
structure NodeMap where
  nodes : Nodes
  nodup : (nodes.map Prod.fst).Nodup
  carried : ∀ entry ∈ nodes, ∃ id, entry.1 = .str id ∧ field? entry.2 "id" = some (.str id)
  kind : ∀ entry ∈ nodes, ∃ kind, field? entry.2 "kind" = some (.str kind)
  children : ∀ entry ∈ nodes, ∃ ids : List String,
    (field? entry.2 "children").getD (.list []) = .list (ids.map .str)

namespace NodeMap

def ids (m : NodeMap) : List Key := m.nodes.map Prod.fst

/-- The children of the node with an id. -/
def childrenOf (m : NodeMap) (id : Key) : List Key :=
  (childTexts ((m.nodes.lookup id).getD [])).map Key.str

/-- The `children` graph, of the ids in the map. -/
def Owns (m : NodeMap) : Key → Key → Prop := DepthFirst.Edge m.childrenOf (· ∈ m.ids)

end NodeMap

/-! ### Well-formed maps -/

/-- The node points at the id: as one of its children, in a named field, or as its source. -/
def Refers (node : Node) (ref : String) : Prop :=
  ref ∈ childTexts node ∨
    (∃ name ∈ namedRefFields, field node name = .str ref ∨
      ∃ items, field node name = .list items ∧ .str ref ∈ items) ∨
    ∃ source, field node "source" = .dict source ∧ field source "ref" = .str ref

structure NodeMap.WellFormed (m : NodeMap) : Prop where
  /-- every reference resolves -/
  resolves : ∀ entry ∈ m.nodes, ∀ ref, Refers entry.2 ref → .str ref ∈ m.ids
  /-- one path of children leads to a node, from one node that nobody owns -/
  reached : ∀ id ∈ m.ids, Forest.Reached m.ids m.childrenOf id
  /-- nobody owns declarations and constraints only -/
  entries : ∀ entry ∈ m.nodes, Forest.Unowned m.ids m.childrenOf entry.1 →
    kindText entry.2 ∈ entryKinds
  /-- a child that has a kind is of one that its owner's kind may own -/
  kinds : ∀ entry ∈ m.nodes, ∀ child ∈ m.nodes, child.1 ∈ m.childrenOf entry.1 →
    kindText child.2 ≠ "" →
      kindText child.2 ∈ (childrenAllowed.lookup (kindText entry.2)).getD []
  /-- a guard guards one item, and a `when` guard may have an `otherwise` item -/
  guards : ∀ entry ∈ m.nodes, kindText entry.2 = "Guard" →
    (m.childrenOf entry.1).length = 1 ∨
      (m.childrenOf entry.1).length = 2 ∧ field entry.2 "mode" = .str "when"

end Lnpl.Protocol
