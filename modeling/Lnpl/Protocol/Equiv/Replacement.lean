import Lnpl.Protocol.Assessed
import Lnpl.Protocol.Equiv.Merge

/-!
# Replacing nodes

A merged document is the old one with each node replaced by the last proposed node of its id, and
the nodes of new ids behind it (`merged_eq`).  A dict of nodes by their ids has the last node of
each id (`lookup_setNodes`).
-/

namespace Lnpl.Protocol

open Lnpl.Lib Lnpl.Lib.Py

variable {docNodes nodes merged : List Node} {ks : List Key} {key : Key} {node old new : Node}
  {existing map : Nodes}

/-! ### The merged document -/

theorem replacement_append (nodes : List Node) (node old : Node) :
    replacement (nodes ++ [node]) old =
      if idKey node = idKey old then some node else replacement nodes old := by
  unfold replacement
  rw [List.reverse_append, List.reverse_singleton, List.singleton_append, List.find?_cons]
  by_cases h : idKey node = idKey old
  · rw [if_pos h]
    simp [h]
  · rw [if_neg h]
    simp [h]

theorem replacement_eq_some (h : replacement nodes old = some new) :
    new ∈ nodes ∧ idKey new = idKey old := by
  have hmem := List.mem_of_find?_eq_some h
  have hid := List.find?_some h
  exact ⟨List.mem_reverse.mp hmem, by simpa using hid⟩

theorem replacement_eq_none (h : replacement nodes old = none) :
    ∀ node ∈ nodes, idKey node ≠ idKey old := by
  intro node hnode heq
  have hall := List.find?_eq_none.mp h node (List.mem_reverse.mpr hnode)
  exact hall (by simpa using heq)

/-- The replacement of a node has its id. -/
theorem idKey_replacement (nodes : List Node) (old : Node) :
    idKey ((replacement nodes old).getD old) = idKey old := by
  cases h : replacement nodes old with
  | none => rfl
  | some new => exact (replacement_eq_some h).2

/-- The proposed nodes of new ids. -/
def addedNodes (ks : List Key) (nodes : List Node) : List Node :=
  nodes.filter fun node => ks.all fun key => idKey node ≠ .ok key

theorem mem_addedNodes : node ∈ addedNodes ks nodes ↔
    node ∈ nodes ∧ ∀ key ∈ ks, idKey node ≠ .ok key := by
  unfold addedNodes
  rw [List.mem_filter, List.all_eq_true]
  simp

/-- **A merged document** is the old one with its nodes replaced, and the added nodes. -/
theorem merged_eq (hks : Keyed docNodes ks)
    (h : nodes.foldlM (mergeNode ks) docNodes = .ok merged) :
    merged = docNodes.map (fun old => (replacement nodes old).getD old) ++ addedNodes ks nodes := by
  induction nodes using List.reverseRecOn generalizing merged with
  | nil =>
    rw [List.foldlM_nil, pure_eq_ok] at h
    rw [← h]
    simp [replacement, addedNodes]
  | append_singleton nodes node ih =>
    rw [List.foldlM_append] at h
    obtain ⟨merged', hnodes, hnode⟩ := bind_eq_ok.mp h
    rw [List.foldlM_cons] at hnode
    obtain ⟨merged'', hstep, hnil⟩ := bind_eq_ok.mp hnode
    rw [List.foldlM_nil, pure_eq_ok] at hnil
    subst hnil
    have hmerged := ih hnodes
    obtain ⟨key, hkey, ⟨hmem, rfl⟩ | ⟨hnew, rfl⟩⟩ := mergeNode_ok hstep
    · -- no added node has the id of a node of the document
      have hadded : (addedNodes ks nodes).map (replaceNode key node) = addedNodes ks nodes := by
        conv_rhs => rw [← List.map_id (addedNodes ks nodes)]
        apply List.map_congr_left
        intro other hother
        exact if_neg ((mem_addedNodes.mp hother).2 key hmem)
      have hlast : addedNodes ks (nodes ++ [node]) = addedNodes ks nodes := by
        unfold addedNodes
        rw [List.filter_append, List.filter_cons_of_neg, List.filter_nil, List.append_nil]
        rw [List.all_eq_true]
        intro hall
        exact of_decide_eq_true (hall key hmem) hkey
      rw [hmerged, List.map_append, hadded, hlast, List.map_map]
      congr 1
      apply List.map_congr_left
      intro old _
      show replaceNode key node _ = _
      unfold replaceNode
      rw [idKey_replacement, replacement_append, hkey]
      by_cases hold : idKey old = .ok key
      · rw [if_pos hold, if_pos hold.symm]
        rfl
      · rw [if_neg hold, if_neg (Ne.symm hold)]
    · have hlast : addedNodes ks (nodes ++ [node]) = addedNodes ks nodes ++ [node] := by
        unfold addedNodes
        rw [List.filter_append, List.filter_cons_of_pos, List.filter_nil]
        rw [List.all_eq_true]
        intro other hother
        rw [hkey]
        exact decide_eq_true fun heq => hnew (Except.ok.inj heq ▸ hother)
      rw [hmerged, hlast, List.append_assoc]
      congr 1
      apply List.map_congr_left
      intro old hold
      obtain ⟨other, hother, hid⟩ := hks.key_of_mem hold
      rw [replacement_append, if_neg]
      rw [hkey, hid]
      exact fun heq => hnew (Except.ok.inj heq ▸ hother)

/-! ### Dicts of nodes -/

theorem lookup_setNode (key key' : Key) (node : Node) (map : Nodes) :
    (setNode key node map).lookup key' = if key' = key then some node else map.lookup key' := by
  induction map with
  | nil =>
    rw [setNode, List.lookup_cons]
    by_cases h : key' = key
    · simp [h]
    · rw [beq_eq_false_iff_ne.mpr h, if_neg h]
  | cons entry map ih =>
    obtain ⟨first, node'⟩ := entry
    rw [setNode]
    split_ifs with hfirst hkey hkey
    · rw [hkey, List.lookup_cons, beq_self_eq_true]
    · rw [List.lookup_cons, List.lookup_cons, hfirst, beq_eq_false_iff_ne.mpr hkey]
    · rw [List.lookup_cons, ih, if_pos hkey, hkey, beq_eq_false_iff_ne.mpr (Ne.symm hfirst)]
    · rw [List.lookup_cons, List.lookup_cons, ih, if_neg hkey]

/-- A dict in which nodes are put by their ids has the last node of each id. -/
theorem lookup_setNodes
    (h : nodes.foldlM (fun map node => return setNode (← idKey node) node map) existing =
      (.ok map : Except Error Nodes)) (key : Key) :
    map.lookup key =
      ((nodes.reverse.find? fun node => idKey node = .ok key).or (existing.lookup key)) := by
  induction nodes using List.reverseRecOn generalizing map with
  | nil =>
    rw [List.foldlM_nil, pure_eq_ok] at h
    rw [h]
    rfl
  | append_singleton nodes node ih =>
    rw [List.foldlM_append] at h
    obtain ⟨map', hnodes, hnode⟩ := bind_eq_ok.mp h
    rw [List.foldlM_cons] at hnode
    obtain ⟨map'', hstep, hnil⟩ := bind_eq_ok.mp hnode
    rw [List.foldlM_nil, pure_eq_ok] at hnil
    subst hnil
    obtain ⟨first, hfirst, hset⟩ := bind_eq_ok.mp hstep
    rw [← pure_eq_ok.mp hset, lookup_setNode, ih hnodes, List.reverse_append,
      List.reverse_singleton, List.singleton_append, List.find?_cons, hfirst]
    by_cases hkey : key = first
    · rw [hkey, if_pos rfl]
      simp
    · rw [if_neg hkey]
      have hne : decide ((Except.ok first : Except Error Key) = .ok key) = false :=
        decide_eq_false fun heq => hkey (Except.ok.inj heq).symm
      rw [hne]

section

variable (h : byId docNodes = .ok existing)
include h

/-- What `{n["id"]: n for n in nodes}` has under a key. -/
theorem lookup_byId (key : Key) :
    existing.lookup key = docNodes.reverse.find? fun node => idKey node = .ok key := by
  have hlookup := lookup_setNodes h key
  rw [hlookup]
  simp

theorem mem_of_lookup_byId (hlookup : existing.lookup key = some node) :
    node ∈ docNodes ∧ idKey node = .ok key := by
  rw [lookup_byId h] at hlookup
  have hmem := List.mem_of_find?_eq_some hlookup
  have hid := List.find?_some hlookup
  exact ⟨List.mem_reverse.mp hmem, by simpa using hid⟩

theorem lookup_byId_eq_none :
    existing.lookup key = none ↔ ∀ node ∈ docNodes, idKey node ≠ .ok key := by
  rw [lookup_byId h, List.find?_eq_none]
  simp

end

/-- Two nodes of one id are one, where ids are unique. -/
theorem UniqueIds.eq_of_idKey (h : UniqueIds docNodes) {node' : Node} (hnode : node ∈ docNodes)
    (hnode' : node' ∈ docNodes) (hid : idKey node = idKey node') : node = node' := by
  obtain ⟨ks, hks, hnodup⟩ := uniqueIds_iff.mp h
  induction hks with
  | nil => cases hnode
  | @cons first key nodes ks hfirst hrest ih =>
    obtain ⟨hfresh, hnodup⟩ := List.nodup_cons.mp hnodup
    have hother : ∀ node ∈ nodes, idKey node ≠ .ok key := by
      intro node hnode heq
      obtain ⟨key', hmem, hkey'⟩ := Keyed.key_of_mem hrest hnode
      rw [hkey'] at heq
      exact hfresh (Except.ok.inj heq ▸ hmem)
    rcases List.mem_cons.mp hnode with heq | hmem
    · rcases List.mem_cons.mp hnode' with heq' | hmem'
      · rw [heq, heq']
      · rw [heq] at hid
        exact absurd (hid.symm.trans hfirst) (hother node' hmem')
    · rcases List.mem_cons.mp hnode' with heq' | hmem'
      · rw [heq'] at hid
        exact absurd (hid.trans hfirst) (hother node hmem)
      · exact ih (uniqueIds_iff.mpr ⟨ks, hrest, hnodup⟩) hmem hmem' hnodup

/-- The node of an id, where ids are unique. -/
theorem lookup_of_mem (h : byId docNodes = .ok existing) (hunique : UniqueIds docNodes)
    (hnode : node ∈ docNodes) (hkey : idKey node = .ok key) :
    existing.lookup key = some node := by
  cases hlookup : existing.lookup key with
  | none => exact absurd hkey ((lookup_byId_eq_none h).mp hlookup node hnode)
  | some other =>
    obtain ⟨hother, hid⟩ := mem_of_lookup_byId h hlookup
    rw [hunique.eq_of_idKey hnode hother (hkey.trans hid.symm)]

end Lnpl.Protocol
