import Mathlib.Data.List.Dedup
import Lnpl.Protocol.Equiv.Replacement

/-!
# References of a node

`refersTo` splits what `node_references` reads by its fields (`mem_refersTo`), and `_refs_in` reads
the same of every field but a `children` that is no list (`mem_refersTo_iff`).  In a sound document
every reference names a node (`SoundDocument.resolves`).
-/

namespace Lnpl.Protocol

open Lnpl.Lib Lnpl.Lib.Py

variable {quote : String → String} {doc : Document} {node old new : Node} {name text : String}
  {key : Key}

/-! ### Fields -/

theorem mem_filterMap_key? {values : List Value} :
    key ∈ values.filterMap Value.key? ↔ ∃ value ∈ values, value.key? = some key :=
  List.mem_filterMap

theorem eq_str_of_key? {value : Value} (h : value.key? = some (.str text)) : value = .str text := by
  cases value with
  | str s => rw [Key.str.inj (Option.some.inj h)]
  | none | bool | int | float | list | dict => cases h

theorem refersTo_children (node : Node) :
    refersTo node "children" = (match childrenOf node with
      | .ok children => children
      | .error _ => []).filterMap Value.key? := rfl

theorem refersTo_named (node : Node) (h : name ∈ namedRefFields) :
    refersTo node name = (namedReferences node name).filterMap Value.key? := by
  have hne : name ≠ "children" ∧ name ≠ "source.ref" := by
    constructor <;> rintro rfl <;> exact absurd h (by decide)
  unfold refersTo
  rw [if_neg hne.1, if_neg hne.2]

theorem refersTo_source (node : Node) :
    refersTo node "source.ref" = (sourceReferences node).filterMap Value.key? := rfl

/-- Every reference is one that `node_references` reads. -/
theorem mem_refersTo {refs : List Value} (h : nodeReferences node = .ok refs)
    (hname : name ∈ referenceFields) (hkey : key ∈ refersTo node name) :
    ∃ ref ∈ refs, ref.key? = some key := by
  obtain ⟨children, hchildren, h⟩ := bind_eq_ok.mp h
  have hrefs := pure_eq_ok.mp h
  subst hrefs
  rcases List.mem_append.mp hname with hname | hname
  · rcases List.mem_cons.mp hname with rfl | hname
    · rw [refersTo_children, hchildren] at hkey
      obtain ⟨value, hvalue, hkey⟩ := mem_filterMap_key?.mp hkey
      exact ⟨value, List.mem_append_left _ (List.mem_append_left _ hvalue), hkey⟩
    · rw [refersTo_named node hname] at hkey
      obtain ⟨value, hvalue, hkey⟩ := mem_filterMap_key?.mp hkey
      have hmem := List.mem_flatMap.mpr ⟨name, hname, hvalue⟩
      exact ⟨value, List.mem_append_left _ (List.mem_append_right _ hmem), hkey⟩
  · rw [List.mem_singleton.mp hname, refersTo_source] at hkey
    obtain ⟨value, hvalue, hkey⟩ := mem_filterMap_key?.mp hkey
    exact ⟨value, List.mem_append_right _ hvalue, hkey⟩

/-- `children` that are a list, or absent, are what a node owns. -/
theorem refersTo_children_listed (h : isListed (field node "children") = true) :
    refersTo node "children" =
      (match field node "children" with
        | .list items => items
        | _ => []).filterMap Value.key? := by
  rw [refersTo_children]
  unfold childrenOf field at *
  cases hfield : field? node "children" with
  | none => rfl
  | some value =>
    rw [hfield] at h
    cases value with
    | none => rfl
    | list items => rfl
    | bool | int | float | str | dict => cases h

theorem refsIn_some (node : Node) (name : String) : refsIn (some node) name =
    match field node name with
    | .list items => items.filterMap Value.str?
    | .str s => [s]
    | _ => [] := rfl

/-- `_refs_in` reads the texts among the references. -/
theorem mem_refersTo_iff (hname : name ∈ referenceKeys)
    (hlisted : name = "children" → isListed (field node "children") = true) :
    Key.str text ∈ refersTo node name ↔ text ∈ refsIn (some node) name := by
  have hitems (items : List Value) :
      Key.str text ∈ items.filterMap Value.key? ↔ text ∈ items.filterMap Value.str? := by
    rw [mem_filterMap_key?, List.mem_filterMap]
    constructor
    · rintro ⟨value, hvalue, hkey⟩
      exact ⟨value, hvalue, by rw [eq_str_of_key? hkey]; rfl⟩
    · rintro ⟨value, hvalue, htext⟩
      refine ⟨value, hvalue, ?_⟩
      cases value with
      | str s => rw [Value.key?, Option.some.inj htext]
      | none | bool | int | float | list | dict => cases htext
  rcases List.mem_cons.mp hname with rfl | hname
  · have hlisted := hlisted rfl
    rw [refersTo_children_listed hlisted, refsIn_some]
    cases hfield : field node "children" with
    | none => simp
    | list items => exact hitems items
    | bool | int | float | str | dict =>
      rw [hfield] at hlisted
      cases hlisted
  · rw [refersTo_named node hname]
    rw [refsIn_some]
    unfold namedReferences
    cases hfield : field node name with
    | list items =>
      rw [hitems]
      simp only [List.mem_filterMap, List.mem_filter]
      constructor
      · rintro ⟨value, ⟨hvalue, -⟩, htext⟩
        exact ⟨value, hvalue, htext⟩
      · rintro ⟨value, hvalue, htext⟩
        exact ⟨value, ⟨hvalue, by rw [htext]; rfl⟩, htext⟩
    | str s => simp [Value.key?]
    | none | bool | int | float | dict => simp

/-! ### Sound documents -/

/-- A sound document has none of the faults. -/
theorem SoundDocument.faultless (h : SoundDocument quote doc) :
    ∃ merged, byId doc.nodes = .ok merged ∧
      ∀ check ∈ structureChecks quote, check merged = .ok none := by
  obtain ⟨-, merged, hmerged, hfault⟩ := h
  exact ⟨merged, hmerged, of_findSomeM?_none hfault⟩

theorem dangling_nil {merged : Nodes} (h : danglingFault merged = .ok none) :
    danglingOf merged = .ok [] := by
  obtain ⟨found, hfound, h⟩ := bind_eq_ok.mp h
  obtain ⟨sorted, hsorted, h⟩ := bind_eq_ok.mp h
  split_ifs at h with hnil
  · have hperm := perm_of_sortKeys hsorted
    rw [hnil] at hperm
    rw [hfound, ← hperm.nil_eq]
  · obtain ⟨ids, -, h⟩ := bind_eq_ok.mp h
    cases pure_eq_ok.mp h

/-- **References resolve** in a sound document. -/
theorem SoundDocument.resolves (h : SoundDocument quote doc) (hnode : node ∈ doc.nodes)
    (hname : name ∈ referenceFields) (hkey : key ∈ refersTo node name) :
    ∃ other ∈ doc.nodes, idKey other = .ok key := by
  obtain ⟨merged, hmerged, hchecks⟩ := h.faultless
  have hdangling := dangling_nil (hchecks danglingFault (by simp [structureChecks]))
  obtain ⟨refs, hrefs, hnone⟩ := bind_eq_ok.mp hdangling
  -- the node is in the map under its id
  obtain ⟨ks, hks, -⟩ := uniqueIds_iff.mp h.1
  obtain ⟨id, -, hid⟩ := hks.key_of_mem hnode
  have hentry := mem_of_lookup (lookup_of_mem hmerged h.1 hnode hid)
  obtain ⟨hashes, hmem, hhashes⟩ := exists_of_mapM hrefs hentry
  obtain ⟨values, hvalues, hhashes⟩ := bind_eq_ok.mp hhashes
  obtain ⟨ref, href, hrefkey⟩ := mem_refersTo hvalues hname hkey
  have hhash : key ∈ hashes := by
    rw [mem_mapM hhashes]
    exact ⟨ref, href, by rw [Value.hash, hrefkey]⟩
  have hfound : (merged.lookup key).isSome := by
    have hempty := pure_eq_ok.mp hnone
    rw [List.dedup_eq_nil, List.filter_eq_nil_iff] at hempty
    have hone := hempty key (List.mem_flatten.mpr ⟨hashes, hmem, hhash⟩)
    cases hlookup : merged.lookup key with
    | some other => rfl
    | none =>
      rw [hlookup] at hone
      exact absurd rfl hone
  obtain ⟨other, hother⟩ := Option.isSome_iff_exists.mp hfound
  exact ⟨other, mem_of_lookup_byId hmerged hother⟩

end Lnpl.Protocol
