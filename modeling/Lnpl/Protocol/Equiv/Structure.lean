import Lnpl.Protocol.Equiv.Cycles
import Lnpl.Protocol.Equiv.References

/-!
# Correctness of `structureFault`

On nodes by their ids no check raises, and each of them finds nothing iff its rule holds
(`Settles`).  One owner and no cycle make the children a forest over the unowned nodes, so together
the checks find nothing iff the map is well formed (`structure_checked`).
-/

namespace Lnpl.Protocol

open Lnpl.Lib Lnpl.Lib.Py
open Lnpl.Lib.DepthFirst (ClosedWalk)
open Lnpl.Lib.Forest (OneOwner Unowned)

variable {m : NodeMap} {quote : String → String}

/-- A check does not raise, and finds nothing iff its rule holds. -/
def Settles (check : Except Error (Option String)) (rule : Prop) : Prop :=
  ∃ fault, check = .ok fault ∧ (fault = none ↔ rule)

variable {rule : Prop} {entry : Key × Node} {value : Value} {o : Owners} {refs : List Key}

variable {check : Except Error (Option String)} {text : String} {keys : List Key} {node : Node}
  {key : Key}

theorem Settles.ok_none_iff (h : Settles check rule) : check = .ok none ↔ rule := by
  obtain ⟨fault, hcheck, hrule⟩ := h
  rw [hcheck, ← hrule, Except.ok.injEq]

theorem Settles.congr {rule' : Prop} (h : Settles check rule) (hrule : rule ↔ rule') :
    Settles check rule' := by
  obtain ⟨fault, hcheck, hfault⟩ := h
  exact ⟨fault, hcheck, hfault.trans hrule⟩

theorem settles_ite [Decidable rule] :
    Settles (if rule then .ok none else .ok (some text)) rule := by
  by_cases h : rule
  · exact ⟨none, if_pos h, iff_of_true rfl h⟩
  · exact ⟨some text, if_neg h, iff_of_false nofun h⟩

/-- A check that reports some ids, if there are any. -/
theorem settles_report (hkeys : ∃ texts : List String, keys = texts.map Key.str) (sep : String)
    (report : String → String) :
    Settles (do
      let sorted ← sortKeys keys
      if sorted = [] then return none
      let ids ← joinKeys sep sorted
      return some (report ids)) (keys = []) := by
  obtain ⟨texts, rfl⟩ := hkeys
  obtain ⟨sorted, hsorted, hperm⟩ := sortKeys_texts texts
  rw [hsorted]
  by_cases hnil : texts = []
  · subst hnil
    have hempty : sorted = [] := hperm.eq_nil
    subst hempty
    exact ⟨none, rfl, by simp⟩
  · have hne : sorted.map Key.str ≠ [] := by
      intro h
      rw [List.map_eq_nil_iff.mp h] at hperm
      exact hnil hperm.symm.eq_nil
    refine ⟨some (report (sep.intercalate sorted)), ?_, ?_⟩
    · simp only [bind, Except.bind, if_neg hne, joinKeys, textKeys?_map]
      rfl
    · exact ⟨nofun, fun h => absurd (List.map_eq_nil_iff.mp h) hnil⟩

/-- Checks one after the other. -/
theorem Settles.cons {α : Type} {f : α → Except Error (Option String)} {x : α} {xs : List α}
    {rule rules : Prop} (h : Settles (f x) rule) (hs : Settles (xs.findSomeM? f) rules) :
    Settles ((x :: xs).findSomeM? f) (rule ∧ rules) := by
  obtain ⟨fault, hcheck, hrule⟩ := h
  obtain ⟨fault', hchecks, hrules⟩ := hs
  cases fault with
  | none =>
    refine ⟨fault', ?_, ?_⟩
    · rw [List.findSomeM?_cons, hcheck]
      exact hchecks
    · rw [hrules]
      exact ⟨fun h => ⟨hrule.mp rfl, h⟩, And.right⟩
  | some text =>
    refine ⟨some text, ?_, iff_of_false nofun fun h => ?_⟩
    · rw [List.findSomeM?_cons, hcheck]
      rfl
    · cases hrule.mpr h.1

theorem settles_findSomeM? {α : Type} {f : α → Except Error (Option String)} {rule : α → Prop}
    {xs : List α} (h : ∀ x ∈ xs, Settles (f x) (rule x)) :
    Settles (xs.findSomeM? f) (∀ x ∈ xs, rule x) := by
  induction xs with
  | nil => exact ⟨none, rfl, by simp⟩
  | cons x xs ih =>
    have hs := ih fun y hy => h y (List.mem_cons_of_mem x hy)
    exact ((h x List.mem_cons_self).cons hs).congr List.forall_mem_cons.symm

/-! ### Ids and references -/

theorem NodeMap.idKey_eq (m : NodeMap) (h : entry ∈ m.nodes) : idKey entry.2 = .ok entry.1 := by
  obtain ⟨id, hkey, hid⟩ := m.carried entry h
  rw [idKey, item, hid, hkey]
  rfl

/-- Nodes by their ids have unique ids. -/
theorem settles_idFault (m : NodeMap) : Settles (idFault m.nodes) True := by
  have hids : m.nodes.mapM (fun entry => idKey entry.2) = .ok m.ids := by
    have h := mapM_map_eq_ok (f := fun entry : Key × Node => idKey entry.2) (g := id)
      (k := Prod.fst) fun entry hentry => m.idKey_eq hentry
    rw [List.map_id] at h
    exact h
  have hnone : m.ids.dedup.filter (fun key => 1 < m.ids.count key) = [] := by
    rw [List.filter_eq_nil_iff]
    intro key _
    have hcount := List.nodup_iff_count_le_one.mp m.nodup key
    rw [decide_eq_true_eq]
    exact Nat.not_lt.mpr hcount
  refine ⟨none, ?_, iff_of_true rfl trivial⟩
  rw [idFault, hids]
  simp only [bind, Except.bind, hnone]
  rfl

theorem mem_namedReferences {name : String} :
    value ∈ namedReferences node name ↔ ∃ ref, value = .str ref ∧ (field node name = .str ref ∨
      ∃ items, field node name = .list items ∧ .str ref ∈ items) := by
  unfold namedReferences
  cases hfield : field node name with
  | list items =>
    rw [List.mem_filter]
    constructor
    · rintro ⟨hvalue, htext⟩
      cases value with
      | str s => exact ⟨s, rfl, .inr ⟨items, rfl, hvalue⟩⟩
      | none | bool | int | float | list | dict => cases htext
    · rintro ⟨ref, rfl, h | ⟨items', hitems, hmem⟩⟩
      · cases h
      · cases hitems
        exact ⟨hmem, rfl⟩
  | str s =>
    rw [List.mem_singleton]
    constructor
    · rintro rfl
      exact ⟨s, rfl, .inl rfl⟩
    · rintro ⟨ref, rfl, h | ⟨items, hitems, -⟩⟩
      · rw [h]
      · cases hitems
  | none | bool | int | float | dict =>
    simp

theorem mem_sourceReferences :
    value ∈ sourceReferences node ↔ ∃ ref, value = .str ref ∧
      ∃ source, field node "source" = .dict source ∧ field source "ref" = .str ref := by
  unfold sourceReferences
  cases hsource : field node "source" with
  | dict source =>
    dsimp only
    cases href : field source "ref" with
    | str s =>
      rw [List.mem_singleton]
      constructor
      · rintro rfl
        exact ⟨s, rfl, source, rfl, href⟩
      · rintro ⟨ref, rfl, source', hdict, hstr⟩
        cases hdict
        rw [← hstr, href]
    | none | bool | int | float | list | dict => simp [href]
  | none | bool | int | float | str | list => simp

/-- What `node_references` reads are texts, those that the node refers to. -/
theorem nodeReferences_spec (m : NodeMap) (h : entry ∈ m.nodes) :
    ∃ refs, nodeReferences entry.2 = .ok refs ∧
      ∀ value, value ∈ refs ↔ ∃ ref, value = .str ref ∧ Refers entry.2 ref := by
  obtain ⟨ids, hids⟩ := m.children entry h
  refine ⟨((childTexts entry.2).map Key.str).map valueOf ++
    namedRefFields.flatMap (namedReferences entry.2) ++ sourceReferences entry.2, ?_, ?_⟩
  · rw [nodeReferences, childrenOf_eq hids]
    rfl
  · intro value
    simp only [List.mem_append, List.mem_flatMap, mem_namedReferences, mem_sourceReferences,
      List.mem_map, Refers]
    constructor
    · rintro ((⟨key, ⟨s, hs, rfl⟩, rfl⟩ | ⟨name, hname, ref, rfl, href⟩) | ⟨ref, rfl, href⟩)
      · exact ⟨s, rfl, .inl hs⟩
      · exact ⟨ref, rfl, .inr (.inl ⟨name, hname, href⟩)⟩
      · exact ⟨ref, rfl, .inr (.inr href)⟩
    · rintro ⟨ref, rfl, hchild | ⟨name, hname, href⟩ | href⟩
      · exact .inl (.inl ⟨.str ref, ⟨ref, hchild, rfl⟩, rfl⟩)
      · exact .inl (.inr ⟨name, hname, ref, rfl, href⟩)
      · exact .inr ⟨ref, rfl, href⟩

theorem mem_ids_iff {m : NodeMap} : (m.nodes.lookup key).isNone ↔ key ∉ m.ids := by
  rw [NodeMap.ids, ← lookup_isSome_iff_mem, Option.isNone_iff_eq_none,
    Option.not_isSome_iff_eq_none]

/-- Nothing dangles iff every reference is an id of the map. -/
theorem settles_danglingFault (m : NodeMap) : Settles (danglingFault m.nodes)
    (∀ entry ∈ m.nodes, ∀ ref, Refers entry.2 ref → .str ref ∈ m.ids) := by
  have hhash (entry : Key × Node) (hentry : entry ∈ m.nodes) :
      ∃ keys, (do (← nodeReferences entry.2).mapM Value.hash) = Except.ok keys ∧
        ∀ key, key ∈ keys ↔ ∃ ref, key = .str ref ∧ Refers entry.2 ref := by
    obtain ⟨refs, hrefs, hmem⟩ := nodeReferences_spec m hentry
    obtain ⟨keys, hkeys⟩ : ∃ keys, refs.mapM Value.hash = .ok keys := by
      refine exists_mapM fun value hvalue => ?_
      obtain ⟨ref, rfl, -⟩ := (hmem value).mp hvalue
      exact ⟨.str ref, rfl⟩
    refine ⟨keys, by rw [hrefs]; exact hkeys, fun key => ?_⟩
    rw [mem_mapM hkeys]
    constructor
    · rintro ⟨value, hvalue, hkey⟩
      obtain ⟨ref, rfl, href⟩ := (hmem value).mp hvalue
      cases hkey
      exact ⟨ref, rfl, href⟩
    · rintro ⟨ref, rfl, href⟩
      exact ⟨.str ref, (hmem _).mpr ⟨ref, rfl, href⟩, rfl⟩
  obtain ⟨references, hreferences⟩ :=
    exists_mapM fun entry hentry => (hhash entry hentry).imp fun _ => And.left
  have hmem (key : Key) : key ∈ references.flatten ↔
      ∃ entry ∈ m.nodes, ∃ ref, key = .str ref ∧ Refers entry.2 ref := by
    rw [List.mem_flatten]
    constructor
    · rintro ⟨keys, hkeys, hkey⟩
      obtain ⟨entry, hentry, hok⟩ := (mem_mapM hreferences).mp hkeys
      obtain ⟨keys', hok', hkeys'⟩ := hhash entry hentry
      cases hok.symm.trans hok'
      exact ⟨entry, hentry, (hkeys' key).mp hkey⟩
    · rintro ⟨entry, hentry, href⟩
      obtain ⟨keys, hok, hkeys⟩ := hhash entry hentry
      exact ⟨keys, (mem_mapM hreferences).mpr ⟨entry, hentry, hok⟩, (hkeys key).mpr href⟩
  have hdangling : danglingOf m.nodes =
      .ok (references.flatten.filter fun key => (m.nodes.lookup key).isNone).dedup := by
    rw [danglingOf, hreferences]
    rfl
  have htexts : ∃ texts : List String,
      (references.flatten.filter fun key => (m.nodes.lookup key).isNone).dedup =
        texts.map Key.str := by
    refine exists_texts fun key hkey => ?_
    have hfilter := List.mem_of_mem_filter (List.mem_dedup.mp hkey)
    obtain ⟨-, -, ref, rfl, -⟩ := (hmem key).mp hfilter
    exact ⟨ref, rfl⟩
  rw [danglingFault, hdangling]
  refine (settles_report htexts ", " _).congr ?_
  rw [List.dedup_eq_nil, List.filter_eq_nil_iff]
  constructor
  · intro hnone entry hentry ref href
    have hkey := hnone (.str ref) ((hmem _).mpr ⟨entry, hentry, ref, rfl, href⟩)
    rw [mem_ids_iff, not_not] at hkey
    exact hkey
  · intro hall key hkey
    obtain ⟨entry, hentry, ref, rfl, href⟩ := (hmem key).mp hkey
    rw [mem_ids_iff, not_not]
    exact hall entry hentry ref href

/-! ### Owners -/

/-- The owners that are found so far, after some references. -/
structure Counts (o : Owners) (refs : List Key) : Prop where
  owned : ∀ key, (o.owners.lookup key).isSome ↔ key ∈ refs
  contested : o.contested = [] ↔ refs.Nodup

theorem lookup_append_singleton {owners : List (Key × Value)} {key' : Key} :
    ((owners ++ [(key', value)]).lookup key).isSome ↔
      (owners.lookup key).isSome ∨ key = key' := by
  rw [List.lookup_append, Option.isSome_or, Bool.or_eq_true, List.lookup_cons]
  by_cases h : key = key'
  · simp [h]
  · rw [beq_false_of_ne h]
    simp [h]

theorem Counts.own (h : Counts o refs) (quote : String → String) (nodeId : Value) (key : Key) :
    ∃ o', o.own quote nodeId (valueOf key) = .ok o' ∧ Counts o' (refs ++ [key]) := by
  rw [Owners.own, hash_valueOf]
  cases howner : o.owners.lookup key with
  | some owner =>
    have hmem : key ∈ refs := (h.owned key).mp (by rw [howner]; rfl)
    refine ⟨_, by simp only [bind, Except.bind, howner]; rfl, ?_, ?_⟩
    · intro key'
      rw [h.owned key', List.mem_append, List.mem_singleton]
      refine ⟨.inl, fun hkey => hkey.elim id ?_⟩
      rintro rfl
      exact hmem
    · refine iff_of_false (List.append_ne_nil_of_right_ne_nil _ (List.cons_ne_nil _ _)) ?_
      intro hnodup
      exact (List.nodup_append.mp hnodup).2.2 key hmem key (List.mem_singleton_self key) rfl
  | none =>
    have hmem : key ∉ refs := by
      intro hmem
      have hsome := (h.owned key).mpr hmem
      rw [howner] at hsome
      cases hsome
    refine ⟨_, by simp only [bind, Except.bind, howner]; rfl, ?_, ?_⟩
    · intro key'
      rw [lookup_append_singleton, h.owned key', List.mem_append, List.mem_singleton]
    · rw [h.contested, List.nodup_append]
      constructor
      · intro hnodup
        refine ⟨hnodup, List.nodup_singleton key, ?_⟩
        rintro a ha b hb rfl
        exact hmem (List.mem_singleton.mp hb ▸ ha)
      · exact And.left

/-- The references of one node. -/
theorem Counts.foldlM_own (h : Counts o refs) (quote : String → String) (nodeId : Value)
    (keys : List Key) :
    ∃ o', (keys.map valueOf).foldlM (fun o ref => o.own quote nodeId ref) o = .ok o' ∧
      Counts o' (refs ++ keys) := by
  induction keys generalizing o refs with
  | nil => exact ⟨o, rfl, by rwa [List.append_nil]⟩
  | cons key keys ih =>
    obtain ⟨o₁, hown, hcounts⟩ := h.own quote nodeId key
    obtain ⟨o₂, hfold, hcounts⟩ := ih hcounts
    refine ⟨o₂, ?_, by rwa [List.append_assoc, List.singleton_append] at hcounts⟩
    rw [List.map_cons, List.foldlM_cons, hown]
    exact hfold

/-- The references of all nodes. -/
theorem Counts.foldlM_nodes (h : Counts o refs) (quote : String → String)
    (hkeys : ∀ key ∈ keys, key ∈ m.ids) :
    ∃ o', (keys.filterMap fun key => m.nodes.lookup key).foldlM (fun o node => do
        let nodeId ← item node "id"
        (← childrenOf node).foldlM (fun o ref => o.own quote nodeId ref) o) o = .ok o' ∧
      Counts o' (refs ++ keys.flatMap m.childrenOf) := by
  induction keys generalizing o refs with
  | nil => exact ⟨o, rfl, by rwa [List.flatMap_nil, List.append_nil]⟩
  | cons key keys ih =>
    obtain ⟨node, hnode, hlookup⟩ := m.exists_node (hkeys key List.mem_cons_self)
    obtain ⟨id, -, hid⟩ := m.carried _ hnode
    have hchildren : childrenOf node = .ok ((m.childrenOf key).map valueOf) :=
      m.childrenOf_node hnode
    obtain ⟨o₁, hfold₁, hcounts⟩ := h.foldlM_own quote (.str id) (m.childrenOf key)
    obtain ⟨o₂, hfold₂, hcounts⟩ := ih hcounts fun k hk => hkeys k (List.mem_cons_of_mem key hk)
    refine ⟨o₂, ?_, by rwa [List.append_assoc, ← List.flatMap_cons] at hcounts⟩
    rw [List.filterMap_cons, hlookup]
    dsimp only at hid ⊢
    rw [List.foldlM_cons, item, hid, hchildren]
    simp only [bind, Except.bind, hfold₁] at hfold₂ ⊢
    exact hfold₂

/-- Who owns what, by all references of the map. -/
theorem ownersOf_spec (quote : String → String) (m : NodeMap) :
    ∃ o, ownersOf quote m.nodes = .ok o ∧ Counts o (m.ids.flatMap m.childrenOf) := by
  obtain ⟨texts, htexts⟩ := exists_texts m.id_text
  obtain ⟨sorted, hsorted, hperm⟩ := sortKeys_texts texts
  replace hperm := hperm.map Key.str
  rw [← htexts] at hsorted hperm
  have hstart : Counts {} [] := ⟨fun key => by simp, by simp⟩
  obtain ⟨o, hfold, hcounts⟩ := hstart.foldlM_nodes (m := m) quote
    fun key hkey => hperm.mem_iff.mp hkey
  have hrefs := hperm.flatMap_right m.childrenOf
  refine ⟨o, ?_, fun key => ?_, ?_⟩
  · rw [NodeMap.ids] at hsorted
    rw [ownersOf, sortedNodes, hsorted]
    exact hfold
  · rw [hcounts.owned key, List.nil_append, hrefs.mem_iff]
  · rw [hcounts.contested, List.nil_append, hrefs.nodup_iff]

/-- Nothing is contested iff every child has one owner. -/
theorem settles_ownershipFault (m : NodeMap) :
    Settles (ownershipFault quote m.nodes) (OneOwner m.ids m.childrenOf) := by
  obtain ⟨o, hok, hcounts⟩ := ownersOf_spec quote m
  have howner := @Forest.nodup_flatMap_iff _ m.ids m.childrenOf m.nodup
  rw [← howner, ← hcounts.contested, ownershipFault, hok]
  exact settles_ite

/-! ### Kinds -/

theorem NodeMap.kind_eq (m : NodeMap) (h : entry ∈ m.nodes) :
    field? entry.2 "kind" = some (.str (kindText entry.2)) := by
  obtain ⟨kind, hkind⟩ := m.kind entry h
  rw [kindText, field, hkind]
  rfl

theorem NodeMap.field_kind (m : NodeMap) (h : entry ∈ m.nodes) :
    field entry.2 "kind" = .str (kindText entry.2) := by
  rw [field, m.kind_eq h, Option.getD_some]

/-- Whoever nobody owns is an entry node, or an orphan is found. -/
theorem settles_orphanFault (m : NodeMap) : Settles (orphanFault quote m.nodes)
    (∀ entry ∈ m.nodes, Unowned m.ids m.childrenOf entry.1 → kindText entry.2 ∈ entryKinds) := by
  obtain ⟨o, hok, hcounts⟩ := ownersOf_spec quote m
  have horphans : (m.nodes.filterMapM fun entry => do
      if ← kindIn entryKinds (← item entry.2 "kind") then return none
      let key ← idKey entry.2
      return if (o.owners.lookup key).isNone then some key else none) =
      .ok (m.nodes.filterMap fun entry =>
        if entryKinds.contains (kindText entry.2) then none
        else if (o.owners.lookup entry.1).isNone then some entry.1 else none) := by
    refine filterMapM_eq_ok fun entry hentry => ?_
    rw [item, m.kind_eq hentry]
    simp only [kindIn, Value.hash, Value.key?, bind, Except.bind, pure, Except.pure,
      m.idKey_eq hentry]
    cases entryKinds.contains (kindText entry.2) <;> rfl
  have htexts : ∃ texts : List String, (m.nodes.filterMap fun entry =>
      if entryKinds.contains (kindText entry.2) then none
      else if (o.owners.lookup entry.1).isNone then some entry.1 else none) =
        texts.map Key.str := by
    refine exists_texts fun key hkey => ?_
    obtain ⟨entry, hentry, hsome⟩ := List.mem_filterMap.mp hkey
    split_ifs at hsome
    cases hsome
    exact (m.carried entry hentry).imp fun _ => And.left
  rw [orphanFault, hok]
  simp only [bind, Except.bind] at horphans ⊢
  rw [horphans]
  refine (settles_report htexts ", " _).congr ?_
  rw [List.filterMap_eq_nil_iff]
  refine forall₂_congr fun entry hentry => ?_
  have hid : entry.1 ∈ m.ids := List.mem_map_of_mem hentry
  rw [Forest.unowned_iff hid, ← hcounts.owned, Bool.not_eq_true, ← List.contains_iff_mem]
  cases entryKinds.contains (kindText entry.2) <;> cases o.owners.lookup entry.1 <;> simp

/-- A cycle is found iff there is one. -/
theorem settles_cycleFault (m : NodeMap) :
    Settles (cycleFault m.nodes) (∀ walk, ¬ ClosedWalk m.Owns walk) := by
  obtain ⟨cycle, hok, hnone, hclosed⟩ := ownershipCycle_spec m
  rw [cycleFault, hok, ← hnone]
  have htexts : ∃ texts : List String, cycle = texts.map Key.str := by
    refine exists_texts fun key hkey => m.id_text key ?_
    have hne : cycle ≠ [] := List.ne_nil_of_mem hkey
    exact (hclosed hne).mem_known hkey
  obtain ⟨texts, rfl⟩ := htexts
  simp only [bind, Except.bind, joinKeys, textKeys?_map]
  exact settles_ite

/-- V5 of one child: it has no kind, or one that its owner may own. -/
theorem settles_childFault (m : NodeMap) (hentry : entry ∈ m.nodes) (key : Key) :
    Settles (childFault quote m.nodes entry.2 (valueOf key))
      (∀ child ∈ m.nodes, child.1 = key → kindText child.2 ≠ "" →
        kindText child.2 ∈ (childrenAllowed.lookup (kindText entry.2)).getD []) := by
  rw [childFault, hash_valueOf]
  cases hlookup : m.nodes.lookup key with
  | none =>
    refine ⟨none, by simp only [bind, Except.bind, hlookup]; rfl, iff_of_true rfl ?_⟩
    rintro child hchild rfl
    rw [lookup_of_nodup m.nodup hchild] at hlookup
    cases hlookup
  | some node =>
    have hnode : (key, node) ∈ m.nodes := mem_of_lookup hlookup
    have honly : (∀ child ∈ m.nodes, child.1 = key → kindText child.2 ≠ "" →
        kindText child.2 ∈ (childrenAllowed.lookup (kindText entry.2)).getD []) ↔
        (kindText node ≠ "" →
          kindText node ∈ (childrenAllowed.lookup (kindText entry.2)).getD []) := by
      constructor
      · exact fun hall => hall (key, node) hnode rfl
      · rintro hmay child hchild rfl
        rw [lookup_of_nodup m.nodup hchild] at hlookup
        cases hlookup
        exact hmay
    obtain ⟨id, -, hid⟩ := m.carried entry hentry
    have hkind : field node "kind" = .str (kindText node) := m.field_kind hnode
    refine Settles.congr ?_ honly.symm
    simp only [bind, Except.bind, hlookup, hkind, m.field_kind hentry, item, hid]
    by_cases hempty : kindText node = ""
    · refine ⟨none, ?_, iff_of_true rfl fun h => absurd hempty h⟩
      rw [hempty]
      rfl
    · have htruthy : (Value.str (kindText node)).truthy = true := decide_eq_true hempty
      rw [htruthy]
      simp only [kindIn, childrenAllowedOf, Value.hash, Value.key?, bind, Except.bind, pure,
        Except.pure]
      refine settles_ite.congr ?_
      rw [List.contains_iff_mem]
      exact ⟨fun h _ => h, fun h => h hempty⟩

/-- Every kind owns what it may own. -/
theorem settles_childrenFault (m : NodeMap) : Settles (childrenFault quote m.nodes)
    (∀ entry ∈ m.nodes, ∀ child ∈ m.nodes, child.1 ∈ m.childrenOf entry.1 →
      kindText child.2 ≠ "" →
        kindText child.2 ∈ (childrenAllowed.lookup (kindText entry.2)).getD []) := by
  refine settles_findSomeM? fun entry hentry => ?_
  rw [m.childrenOf_node hentry]
  have hall : Settles (((m.childrenOf entry.1).map valueOf).findSomeM?
      (childFault quote m.nodes entry.2)) (∀ value ∈ (m.childrenOf entry.1).map valueOf,
        ∀ child ∈ m.nodes, valueOf child.1 = value → kindText child.2 ≠ "" →
          kindText child.2 ∈ (childrenAllowed.lookup (kindText entry.2)).getD []) := by
    refine settles_findSomeM? fun value hvalue => ?_
    obtain ⟨key, -, rfl⟩ := List.mem_map.mp hvalue
    refine (settles_childFault m hentry key).congr ?_
    simp only [valueOf_injective.eq_iff]
  refine hall.congr ?_
  constructor
  · intro h child hchild hmem
    exact h _ (List.mem_map_of_mem hmem) child hchild rfl
  · rintro h value hvalue child hchild rfl
    obtain ⟨key, hkey, heq⟩ := List.mem_map.mp hvalue
    rw [valueOf_injective heq] at hkey
    exact h child hchild hkey

/-! ### Guards -/

theorem eq_str_iff : value.eq (.str text) = true ↔ value = .str text := by
  constructor
  · intro h
    cases value with
    | str s => simpa [Value.eq, Value.key?] using h
    | none | bool | int | float | list | dict => simp [Value.eq, Value.key?] at h
  · rintro rfl
    simp [Value.eq, Value.key?]

/-- A guard guards one item, or two as a `when` guard. -/
theorem settles_guardFault (m : NodeMap) : Settles (guardFault quote m.nodes)
    (∀ entry ∈ m.nodes, kindText entry.2 = "Guard" →
      (m.childrenOf entry.1).length = 1 ∨
        (m.childrenOf entry.1).length = 2 ∧ field entry.2 "mode" = .str "when") := by
  refine settles_findSomeM? fun entry hentry => ?_
  obtain ⟨id, -, hid⟩ := m.carried entry hentry
  rw [m.field_kind hentry, m.childrenOf_node hentry]
  by_cases hguard : kindText entry.2 = "Guard"
  · have hkind : (Value.str (kindText entry.2)).eq (.str "Guard") = true :=
      eq_str_iff.mpr (by rw [hguard])
    have hallowed : (if (field entry.2 "mode").eq (.str "when") then [1, 2] else [1]).contains
        ((m.childrenOf entry.1).map valueOf).length = true ↔
        (kindText entry.2 = "Guard" → (m.childrenOf entry.1).length = 1 ∨
          (m.childrenOf entry.1).length = 2 ∧ field entry.2 "mode" = .str "when") := by
      rw [List.length_map, ← eq_str_iff, List.contains_iff_mem]
      by_cases hmode : (field entry.2 "mode").eq (.str "when") = true
      · rw [if_pos hmode]
        simp [hguard, hmode]
      · rw [if_neg hmode]
        simp [hguard, hmode]
    simp only [bind, Except.bind, hkind, item, hid]
    exact settles_ite.congr hallowed
  · have hkind : (Value.str (kindText entry.2)).eq (.str "Guard") = false := by
      rw [← Bool.not_eq_true, eq_str_iff]
      exact fun h => hguard (Value.str.inj h)
    refine ⟨none, ?_, iff_of_true rfl fun h => absurd h hguard⟩
    rw [hkind]
    rfl

/-! ### All checks -/

/-- All checks together find nothing iff each of their rules holds. -/
theorem settles_structureFault (quote : String → String) (m : NodeMap) :
    Settles (structureFault quote m.nodes) (True ∧
      (∀ entry ∈ m.nodes, ∀ ref, Refers entry.2 ref → .str ref ∈ m.ids) ∧
      OneOwner m.ids m.childrenOf ∧
      (∀ entry ∈ m.nodes, Unowned m.ids m.childrenOf entry.1 → kindText entry.2 ∈ entryKinds) ∧
      (∀ walk, ¬ ClosedWalk m.Owns walk) ∧
      (∀ entry ∈ m.nodes, ∀ child ∈ m.nodes, child.1 ∈ m.childrenOf entry.1 →
        kindText child.2 ≠ "" →
          kindText child.2 ∈ (childrenAllowed.lookup (kindText entry.2)).getD []) ∧
      (∀ entry ∈ m.nodes, kindText entry.2 = "Guard" →
        (m.childrenOf entry.1).length = 1 ∨
          (m.childrenOf entry.1).length = 2 ∧ field entry.2 "mode" = .str "when") ∧
      True) := by
  rw [structureFault, structureChecks]
  refine .cons (settles_idFault m) (.cons (settles_danglingFault m) ?_)
  refine .cons (settles_ownershipFault m) (.cons (settles_orphanFault m) ?_)
  refine .cons (settles_cycleFault m) (.cons (settles_childrenFault m) ?_)
  exact .cons (settles_guardFault m) ⟨none, rfl, iff_of_true rfl trivial⟩

/-- Where every reference resolves, children are ids of the map. -/
theorem closed_of_resolves
    (h : ∀ entry ∈ m.nodes, ∀ ref, Refers entry.2 ref → .str ref ∈ m.ids) :
    ∀ id ∈ m.ids, ∀ child ∈ m.childrenOf id, child ∈ m.ids := by
  intro id hid child hchild
  obtain ⟨node, hnode, hlookup⟩ := m.exists_node hid
  rw [NodeMap.childrenOf, hlookup, Option.getD_some] at hchild
  obtain ⟨ref, href, rfl⟩ := List.mem_map.mp hchild
  exact h _ hnode ref (.inl href)

theorem structureFault_eq_none_iff (quote : String → String) (m : NodeMap) :
    structureFault quote m.nodes = .ok none ↔ m.WellFormed := by
  rw [(settles_structureFault quote m).ok_none_iff]
  constructor
  · rintro ⟨-, hresolves, howner, hentries, hacyclic, hkinds, hguards, -⟩
    have hreached := (Forest.reached_iff (closed_of_resolves hresolves)).mpr ⟨howner, hacyclic⟩
    exact ⟨hresolves, hreached, hentries, hkinds, hguards⟩
  · intro h
    obtain ⟨howner, hacyclic⟩ := (Forest.reached_iff (closed_of_resolves h.resolves)).mp h.reached
    exact ⟨trivial, h.resolves, howner, h.entries, hacyclic, h.kinds, h.guards, trivial⟩

/-- **The structure check is sound and complete.** The search for an ownership cycle answers with
nothing iff no walk along the children is closed, and otherwise with a closed walk; the check of the
structure does not raise, and finds nothing iff the map is well formed. -/
theorem structure_checked (quote : String → String) (m : NodeMap) :
    (∃ cycle, ownershipCycle m.nodes = .ok cycle ∧
      (cycle = [] ↔ ∀ walk, ¬ ClosedWalk m.Owns walk) ∧
      (cycle ≠ [] → ClosedWalk m.Owns cycle)) ∧
    ∃ fault, structureFault quote m.nodes = .ok fault ∧ (fault = none ↔ m.WellFormed) := by
  refine ⟨ownershipCycle_spec m, ?_⟩
  obtain ⟨fault, hfault, -⟩ := settles_structureFault quote m
  refine ⟨fault, hfault, ?_⟩
  rw [← structureFault_eq_none_iff quote, hfault, Except.ok.injEq]

end Lnpl.Protocol
