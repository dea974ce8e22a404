import Lnpl.Lib.Assignments
import Lnpl.Lib.Results
import Lnpl.Protocol.Invariants

/-!
# Merging a proposal

`Keyed nodes keys` says that the nodes have these ids.  Each proposed node of a merge takes the
place of the node of its id, or goes behind all others; the others stay as they are
(`filter_foldlM`).  If the ids of the document are unique, and those of the proposal too, then so
are those of the merged document (`mergeNodes_ok`).
-/

namespace Lnpl.Protocol

open Lnpl.Lib Lnpl.Lib.Py

variable {docNodes nodes merged merged' : List Node} {ks keys : List Key} {key : Key} {node : Node}

/-! ### Ids -/

/-- The ids of the nodes, in order. -/
def Keyed (nodes : List Node) (keys : List Key) : Prop :=
  List.Forall₂ (fun node key => idKey node = .ok key) nodes keys

theorem uniqueIds_iff : UniqueIds nodes ↔ ∃ keys, Keyed nodes keys ∧ keys.Nodup := by
  unfold UniqueIds Keyed
  simp only [mapM_eq_ok]

theorem Keyed.append {nodes' : List Node} {keys' : List Key} (h : Keyed nodes keys)
    (h' : Keyed nodes' keys') : Keyed (nodes ++ nodes') (keys ++ keys') :=
  List.rel_append h h'

theorem Keyed.key_of_mem (h : Keyed nodes keys) (hnode : node ∈ nodes) :
    ∃ key ∈ keys, idKey node = .ok key :=
  exists_of_forall₂ h hnode

theorem Keyed.node_of_mem (h : Keyed nodes keys) (hkey : key ∈ keys) :
    ∃ node ∈ nodes, idKey node = .ok key :=
  exists_of_forall₂ h.flip hkey

/-- The id of a node, which the field holds. -/
theorem idKey_eq_ok : idKey node = .ok key ↔ ∃ value, field? node "id" = some value ∧
    value.key? = some key := by
  unfold idKey item
  rw [bind_eq_ok]
  constructor
  · rintro ⟨value, hvalue, hhash⟩
    split at hvalue
    · next value' hfield =>
      obtain rfl := Except.ok.inj hvalue
      refine ⟨value', hfield, ?_⟩
      unfold Value.hash at hhash
      split at hhash
      · next key' hkey =>
        rw [hkey, Except.ok.inj hhash]
      · cases hhash
    · cases hvalue
  · rintro ⟨value, hfield, hkey⟩
    exact ⟨value, by rw [hfield], by rw [Value.hash, hkey]⟩

/-! ### One node -/

/-- A proposed node put in the place of the one of its id. -/
def replaceNode (key : Key) (node other : Node) : Node :=
  if idKey other = .ok key then node else other

theorem mergeNode_ok (h : mergeNode ks merged node = .ok merged') :
    ∃ key, idKey node = .ok key ∧
      ((key ∈ ks ∧ merged' = merged.map (replaceNode key node)) ∨
        (key ∉ ks ∧ merged' = merged ++ [node])) := by
  unfold mergeNode at h
  obtain ⟨key, hkey, h⟩ := bind_eq_ok.mp h
  refine ⟨key, hkey, ?_⟩
  by_cases hmem : key ∈ ks
  · rw [if_pos (List.contains_iff_mem.mpr hmem)] at h
    have hall := mapM_eq_ok.mp h
    have hreplaced : List.Forall₂ (fun other other' => replaceNode key node other = other')
        merged merged' := by
      apply hall.imp
      intro other other' hother
      obtain ⟨key', hkey', hother⟩ := bind_eq_ok.mp hother
      have heq := pure_eq_ok.mp hother
      unfold replaceNode
      rw [hkey', ← heq]
      simp
    rw [← List.forall₂_map_left_iff, List.forall₂_eq_eq_eq] at hreplaced
    exact .inl ⟨hmem, hreplaced.symm⟩
  · rw [if_neg fun hcontains => hmem (List.contains_iff_mem.mp hcontains)] at h
    exact .inr ⟨hmem, (pure_eq_ok.mp h).symm⟩

/-- Replacing a node keeps the ids. -/
theorem Keyed.map_replaceNode (h : Keyed merged keys) (hnode : idKey node = .ok key) :
    Keyed (merged.map (replaceNode key node)) keys := by
  unfold Keyed
  rw [List.forall₂_map_left_iff]
  apply h.imp
  intro other key' hother
  unfold replaceNode
  split
  · next heq =>
    rw [hnode, ← heq]
    exact hother
  · exact hother

variable {other : Node} {U : Node → Bool}

/-- A node of another id stays. -/
theorem mem_map_replaceNode (hother : other ∈ merged) (hne : idKey other ≠ .ok key) :
    other ∈ merged.map (replaceNode key node) :=
  List.mem_map.mpr ⟨other, hother, if_neg hne⟩

/-- The nodes that a predicate selects stay, if it selects neither the proposed node nor one of its
id. -/
theorem filter_map_replaceNode (hU : ∀ other, idKey other = .ok key → U other = false)
    (hnode : idKey node = .ok key) :
    (merged.map (replaceNode key node)).filter U = merged.filter U := by
  induction merged with
  | nil => rfl
  | cons other merged ih =>
    rw [List.map_cons]
    by_cases hother : idKey other = .ok key
    · have hreplaced : replaceNode key node other = node := if_pos hother
      rw [hreplaced, List.filter_cons_of_neg (by simp [hU node hnode]),
        List.filter_cons_of_neg (by simp [hU other hother]), ih]
    · have hkept : replaceNode key node other = other := if_neg hother
      rw [hkept, List.filter_cons, List.filter_cons, ih]

/-! ### All nodes -/

/-- The ids of the proposed nodes that the document lacks go behind its own. -/
theorem keyed_foldlM (hkeys : Keyed merged keys)
    (h : nodes.foldlM (mergeNode ks) merged = .ok merged') :
    ∃ ns, Keyed nodes ns ∧ Keyed merged' (keys ++ ns.filter (· ∉ ks)) := by
  induction nodes generalizing merged keys with
  | nil =>
    rw [List.foldlM_nil, pure_eq_ok] at h
    subst h
    exact ⟨[], .nil, by simpa using hkeys⟩
  | cons node nodes ih =>
    rw [List.foldlM_cons] at h
    obtain ⟨merged₁, hstep, h⟩ := bind_eq_ok.mp h
    obtain ⟨key, hkey, ⟨hmem, rfl⟩ | ⟨hnew, rfl⟩⟩ := mergeNode_ok hstep
    · obtain ⟨ns, hns, hmerged⟩ := ih (hkeys.map_replaceNode hkey) h
      refine ⟨key :: ns, .cons hkey hns, ?_⟩
      rw [List.filter_cons_of_neg (by simpa using hmem)]
      exact hmerged
    · obtain ⟨ns, hns, hmerged⟩ := ih (hkeys.append (.cons hkey .nil)) h
      refine ⟨key :: ns, .cons hkey hns, ?_⟩
      rw [List.filter_cons_of_pos (by simpa using hnew)]
      simpa using hmerged

/-- The nodes that a predicate selects stay, if it selects none with an id of a proposed node. -/
theorem filter_foldlM (hU : ∀ node ∈ nodes, ∀ other, idKey other = idKey node → U other = false)
    (h : nodes.foldlM (mergeNode ks) merged = .ok merged') :
    merged'.filter U = merged.filter U := by
  induction nodes generalizing merged with
  | nil =>
    rw [List.foldlM_nil, pure_eq_ok] at h
    rw [h]
  | cons node nodes ih =>
    rw [List.foldlM_cons] at h
    obtain ⟨merged₁, hstep, h⟩ := bind_eq_ok.mp h
    have hhere := hU node List.mem_cons_self
    rw [ih (fun node' hnode' => hU node' (List.mem_cons_of_mem node hnode')) h]
    obtain ⟨key, hkey, ⟨-, rfl⟩ | ⟨-, rfl⟩⟩ := mergeNode_ok hstep
    · exact filter_map_replaceNode (fun other hother => hhere other (hother.trans hkey.symm)) hkey
    · rw [List.filter_append, List.filter_cons_of_neg (by simp [hhere node rfl]),
        List.filter_nil, List.append_nil]

/-- A node whose id is not proposed stays. -/
theorem mem_foldlM_of_mem (hother : other ∈ merged) (hne : ∀ node ∈ nodes, idKey node ≠ idKey other)
    (h : nodes.foldlM (mergeNode ks) merged = .ok merged') : other ∈ merged' := by
  induction nodes generalizing merged with
  | nil =>
    rw [List.foldlM_nil, pure_eq_ok] at h
    rw [← h]
    exact hother
  | cons node nodes ih =>
    rw [List.foldlM_cons] at h
    obtain ⟨merged₁, hstep, h⟩ := bind_eq_ok.mp h
    refine ih ?_ (fun node' hnode' => hne node' (List.mem_cons_of_mem node hnode')) h
    obtain ⟨key, hkey, ⟨-, rfl⟩ | ⟨-, rfl⟩⟩ := mergeNode_ok hstep
    · apply mem_map_replaceNode hother
      intro heq
      exact hne node List.mem_cons_self (hkey.trans heq.symm)
    · exact List.mem_append_left _ hother

/-- Every proposed node is in the document, if no two of them have one id. -/
theorem mem_foldlM_of_proposed {ns : List Key} (hkeys : Keyed merged keys) (hks : ks ⊆ keys)
    (hns : Keyed nodes ns) (hnodup : ns.Nodup)
    (h : nodes.foldlM (mergeNode ks) merged = .ok merged') : ∀ node ∈ nodes, node ∈ merged' := by
  induction hns generalizing merged keys with
  | nil => exact fun node hnode => absurd hnode List.not_mem_nil
  | @cons node key nodes ns hkey hns ih =>
    rw [List.foldlM_cons] at h
    obtain ⟨merged₁, hstep, h⟩ := bind_eq_ok.mp h
    obtain ⟨hfresh, hnodup⟩ := List.nodup_cons.mp hnodup
    -- no later node has the id of this one
    have hlater : ∀ node' ∈ nodes, idKey node' ≠ idKey node := by
      intro node' hnode' heq
      obtain ⟨key', hmem, hkey'⟩ := Keyed.key_of_mem hns hnode'
      rw [hkey', hkey] at heq
      exact hfresh (Except.ok.inj heq ▸ hmem)
    have hhere : node ∈ merged₁ ∧ ∃ keys₁, Keyed merged₁ keys₁ ∧ ks ⊆ keys₁ := by
      obtain ⟨key', hkey', ⟨hmem, rfl⟩ | ⟨-, rfl⟩⟩ := mergeNode_ok hstep
      · obtain rfl := Except.ok.inj (hkey.symm.trans hkey')
        obtain ⟨other, hother, hid⟩ := hkeys.node_of_mem (hks hmem)
        exact ⟨List.mem_map.mpr ⟨other, hother, if_pos hid⟩, keys,
          hkeys.map_replaceNode hkey, hks⟩
      · exact ⟨by simp, keys ++ [key], hkeys.append (.cons hkey .nil),
          fun k hk => List.mem_append_left _ (hks hk)⟩
    obtain ⟨hnode, keys₁, hkeys₁, hks₁⟩ := hhere
    intro node' hnode'
    rcases List.mem_cons.mp hnode' with heq | hnode'
    · rw [heq]
      exact mem_foldlM_of_mem hnode hlater h
    · exact ih hkeys₁ hks₁ hnodup h node' hnode'

/-! ### Ids that are not repeated -/

/-- A scalar is equal to what has its key. -/
theorem eq_iff_key? {a b : Value} {k : Key} (hb : b.key? = some k) :
    a.eq b = true ↔ a.key? = some k := by
  have heq : a.eq b = (a.key?.isSome && a.key? == b.key?) := by
    cases b with
    | list items | dict fields => cases hb
    | none | bool | int | float | str => cases a <;> rfl
  rw [heq, hb]
  cases a.key? <;> simp

/-- The value of the id of a node. -/
theorem key?_field_of_idKey (h : idKey node = .ok key) : (field node "id").key? = some key := by
  obtain ⟨value, hfield, hkey⟩ := idKey_eq_ok.mp h
  unfold field
  rw [hfield]
  exact hkey

/-- How often an id occurs among the nodes. -/
theorem Keyed.count (h : Keyed nodes keys) {id : Value} (hid : id.key? = some key) :
    keys.count key = nodes.countP fun node => (field node "id").eq id := by
  induction h with
  | nil => rfl
  | @cons node key' nodes keys hkey _ ih =>
    have hiff : (field node "id").eq id = true ↔ key' = key := by
      rw [eq_iff_key? hid, key?_field_of_idKey hkey, Option.some.injEq]
    rw [List.count_cons, List.countP_cons, ih]
    by_cases heq : key' = key
    · simp [heq, hiff.mpr heq]
    · simp [heq, mt hiff.mp heq]

theorem proposedIds_map_dict (nodes : List Node) :
    proposedIds (nodes.map Value.dict) = nodes.map fun node => field node "id" := by
  induction nodes with
  | nil => rfl
  | cons node nodes ih =>
    show field node "id" :: proposedIds (nodes.map Value.dict) = _
    rw [ih]
    rfl

/-- No id but `None` is that of two nodes of a fragment. -/
theorem Keyed.nodup (h : Keyed nodes keys) (hrepeated : repeatedIds (nodes.map Value.dict) = [])
    (hnull : nullIds nodes ≤ 1) : keys.Nodup := by
  rw [List.nodup_iff_count_le_one]
  intro key
  by_cases hmem : key ∈ keys
  · obtain ⟨node, hnode, hkey⟩ := h.node_of_mem hmem
    have hvalue := key?_field_of_idKey hkey
    by_cases hnone : key = .none
    · have hcount : keys.count key = nullIds nodes := h.count (by rw [hnone]; rfl)
      rw [hcount]
      exact hnull
    · unfold repeatedIds at hrepeated
      rw [proposedIds_map_dict, List.filter_eq_nil_iff] at hrepeated
      have honce := hrepeated _ (List.mem_map_of_mem hnode)
      have hnot : (field node "id").eq .none = false := by
        rw [Bool.eq_false_iff]
        intro heq
        rw [(eq_iff_key? (k := .none) rfl).mp heq] at hvalue
        exact hnone (Option.some.inj hvalue).symm
      rw [hnot, List.countP_map] at honce
      rw [h.count hvalue]
      simpa [Function.comp_def] using honce
  · rw [List.count_eq_zero_of_not_mem hmem]
    exact Nat.zero_le 1

/-! ### The merge -/

/-- **A merge** of proposed nodes with ids of their own: the ids are unique as they were, the
proposed nodes are in the document, and the others are as they were. -/
theorem mergeNodes_ok (hdoc : UniqueIds docNodes)
    (hrepeated : repeatedIds (nodes.map Value.dict) = []) (hnull : nullIds nodes ≤ 1)
    (h : mergeNodes docNodes nodes = .ok merged) :
    UniqueIds merged ∧ (∀ node ∈ nodes, node ∈ merged) ∧
      merged.filter (Untouched nodes) = docNodes.filter (Untouched nodes) := by
  obtain ⟨ks, hks, hnodup⟩ := uniqueIds_iff.mp hdoc
  obtain ⟨ks', hks', h⟩ := bind_eq_ok.mp h
  obtain rfl : ks = ks' := by
    rw [mapM_eq_ok.mpr hks] at hks'
    exact Except.ok.inj hks'
  obtain ⟨ns, hns, hmerged⟩ := keyed_foldlM hks h
  have hfresh := hns.nodup hrepeated hnull
  refine ⟨uniqueIds_iff.mpr ⟨_, hmerged, ?_⟩, ?_, ?_⟩
  · refine hnodup.append (hfresh.filter _) ?_
    intro key hkey hnew
    exact absurd hkey (by simpa using (List.mem_filter.mp hnew).2)
  · exact mem_foldlM_of_proposed hks (List.Subset.refl ks) hns hfresh h
  · apply filter_foldlM _ h
    intro node hnode other hid
    unfold Untouched
    rw [List.all_eq_false]
    exact ⟨node, hnode, by simp [hid]⟩

end Lnpl.Protocol
