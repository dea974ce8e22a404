import Lnpl.Protocol.Equiv.References

/-!
# Edits outside the rights

What `reference_only_edit` allows: a field that was a list has its references, in their order, with
declared children between them (`refersTo_of_keepsReferences`).
-/

namespace Lnpl.Protocol

open Lnpl.Lib Lnpl.Lib.Py

variable {node old : Node} {name : String} {declared : List String} {childKinds : Nodes}

/-! ### Equal values -/

variable {a b : Value} {items xs ys : List Value}

theorem key?_of_eq (h : a.eq b = true) : a.key? = b.key? := by
  cases hb : b.key? with
  | some key => exact (eq_iff_key? hb).mp h
  | none =>
    cases ha : a.key? with
    | none => rfl
    | some key =>
      -- a scalar is equal to no list, and to no dict
      cases b with
      | list items | dict fields =>
        cases a with
        | list | dict => cases ha
        | none | bool | int | float | str => cases h
      | none | bool | int | float | str => cases hb

theorem hash_of_eq (h : a.eq b = true) : a.hash = b.hash := by
  unfold Value.hash
  rw [key?_of_eq h]

theorem eq_none_of_eq (h : a.eq .none = true) : a = .none := by
  have hkey := key?_of_eq h
  cases a with
  | none => rfl
  | bool | int | float | str | list | dict => cases hkey

theorem str?_isSome_of_eq (h : a.eq b = true) : a.str?.isSome = b.str?.isSome := by
  have hkey := key?_of_eq h
  cases a with
  | none | bool | int | float | list | dict =>
    cases b with
    | str s => cases hkey
    | none | bool | int | float | list | dict => rfl
  | str s =>
    cases b with
    | str s => rfl
    | none | bool | int | float | list | dict => cases hkey

theorem eq_list_of_eq (h : a.eq (.list items) = true) : ∃ items', a = .list items' := by
  cases a with
  | list items' => exact ⟨items', rfl⟩
  | none | bool | int | float | str | dict => cases h

theorem eqItems_cons (h : eqItems (a :: xs) (b :: ys) = true) :
    a.eq b = true ∧ eqItems xs ys = true := by
  rw [eqItems, Bool.and_eq_true] at h
  exact h

/-- Equal lists have the same keys. -/
theorem filterMap_key?_of_eqItems (h : eqItems xs ys = true) :
    xs.filterMap Value.key? = ys.filterMap Value.key? := by
  induction xs generalizing ys with
  | nil =>
    cases ys with
    | nil => rfl
    | cons b ys => cases h
  | cons a xs ih =>
    cases ys with
    | nil => cases h
    | cons b ys =>
      obtain ⟨hab, hrest⟩ := eqItems_cons h
      rw [List.filterMap_cons, List.filterMap_cons, key?_of_eq hab, ih hrest]

/-- Equal lists have equal texts. -/
theorem filter_str?_of_eqItems (h : eqItems xs ys = true) :
    eqItems (xs.filter fun x => x.str?.isSome) (ys.filter fun y => y.str?.isSome) = true := by
  induction xs generalizing ys with
  | nil =>
    cases ys with
    | nil => rfl
    | cons b ys => cases h
  | cons a xs ih =>
    cases ys with
    | nil => cases h
    | cons b ys =>
      obtain ⟨hab, hrest⟩ := eqItems_cons h
      rw [List.filter_cons, List.filter_cons, str?_isSome_of_eq hab]
      split_ifs
      · rw [eqItems, Bool.and_eq_true]
        exact ⟨hab, ih hrest⟩
      · exact ih hrest

/-! ### One field -/

/-- An item that is one of some texts. -/
def isOneOf (texts : List String) (item : Value) : Bool :=
  match item with
  | .str s => texts.contains s
  | _ => false

variable {texts : List String} {allowed : Option (List String)} {q : Key → Bool}

theorem kindIn_eq_ok {item : Value} {b : Bool} (h : kindIn texts item = .ok b) :
    b = isOneOf texts item := by
  cases item with
  | str | none | bool | int | float => exact (Except.ok.inj h).symm
  | list | dict => cases h

/-- What remains behind the declared children. -/
theorem remaining_eq_ok {rest : List Value} (h : remaining allowed items = .ok rest) :
    rest = items.filter fun item => !isOneOf (allowed.getD []) item := by
  unfold remaining at h
  cases allowed with
  | none =>
    dsimp only at h
    rw [← Except.ok.inj h]
    symm
    rw [List.filter_eq_self]
    intro item _
    unfold isOneOf
    split <;> rfl
  | some texts =>
    obtain ⟨hall, rfl⟩ := filterM_eq_ok h
    apply List.filter_congr
    intro item hitem
    obtain ⟨b, hb⟩ := hall item hitem
    obtain ⟨isIn, hisIn, -⟩ := bind_eq_ok.mp hb
    have hone := kindIn_eq_ok hisIn
    show holds (kindIn texts item >>= fun b => pure !b) = _
    rw [hisIn, hone]
    rfl

/-- Only declared children may be new in a field. -/
theorem allowedNew_subset (h : allowedNew declared childKinds name = .ok allowed) :
    allowed.getD [] ⊆ declared := by
  unfold allowedNew at h
  split_ifs at h
  · rw [← Except.ok.inj h]
    exact List.Subset.refl declared
  · obtain ⟨texts, htexts, rfl⟩ := map_eq_ok.mp h
    obtain ⟨-, rfl⟩ := filterM_eq_ok htexts
    exact List.filter_sublist.subset
  · rw [← Except.ok.inj h]
    exact List.nil_subset declared

/-- The references of a list of items, in a field. -/
def itemReferences (name : String) (items : List Value) : List Key :=
  (if name = "children" then items else items.filter fun item => item.str?.isSome).filterMap
    Value.key?

theorem refersTo_of_list (hname : name ∈ referenceKeys) (h : field node name = .list items) :
    refersTo node name = itemReferences name items := by
  unfold itemReferences
  rcases List.mem_cons.mp hname with rfl | hname
  · rw [refersTo_children_listed (by rw [h]; rfl), h, if_pos rfl]
  · have hne : name ≠ "children" := by
      rintro rfl
      exact absurd hname (by decide)
    rw [refersTo_named node hname, if_neg hne]
    unfold namedReferences
    rw [h]

theorem refersTo_of_none (hname : name ∈ referenceKeys) (h : field node name = .none) :
    refersTo node name = [] := by
  rcases List.mem_cons.mp hname with rfl | hname
  · rw [refersTo_children_listed (by rw [h]; rfl), h]
    rfl
  · rw [refersTo_named node hname]
    unfold namedReferences
    rw [h]
    rfl

theorem itemReferences_of_eqItems (h : eqItems xs ys = true) :
    itemReferences name xs = itemReferences name ys := by
  unfold itemReferences
  split_ifs
  · exact filterMap_key?_of_eqItems h
  · exact filterMap_key?_of_eqItems (filter_str?_of_eqItems h)

/-- Leaving out items that are one of some texts leaves out what refers to these. -/
theorem filter_itemReferences (items : List Value) (hq : ∀ text ∈ texts, q (.str text) = false) :
    (itemReferences name (items.filter fun item => !isOneOf texts item)).filter q =
      (itemReferences name items).filter q := by
  have hkeys (xs : List Value) :
      ((xs.filter fun item => !isOneOf texts item).filterMap Value.key?).filter q =
        (xs.filterMap Value.key?).filter q := by
    induction xs with
    | nil => rfl
    | cons x xs ih =>
      cases hone : isOneOf texts x with
      | false =>
        rw [List.filter_cons_of_pos (by rw [hone]; rfl), List.filterMap_cons, List.filterMap_cons]
        cases x.key? with
        | none => exact ih
        | some key => rw [List.filter_cons, List.filter_cons, ih]
      | true =>
        rw [List.filter_cons_of_neg (by rw [hone]; exact Bool.false_ne_true), ih]
        unfold isOneOf at hone
        cases x with
        | str s =>
          have hs := hq s (List.contains_iff_mem.mp hone)
          rw [List.filterMap_cons]
          show _ = List.filter q (Key.str s :: _)
          rw [List.filter_cons_of_neg (by rw [hs]; exact Bool.false_ne_true)]
        | none | bool | int | float | list | dict => cases hone
  unfold itemReferences
  split_ifs
  · exact hkeys items
  · rw [List.filter_comm]
    exact hkeys _

/-- **A field that was a list**, of an edit that only attaches: without the references in which `q`
has its new ones, it refers to what it referred to before. -/
theorem refersTo_of_keepsReferences (hname : name ∈ referenceKeys)
    (hlisted : isListed (field old name) = true)
    (hdeclared : ∀ child ∈ declared, q (.str child) = false)
    (hold : ∀ key ∈ refersTo old name, q key = true)
    (h : keepsReferences node old declared childKinds name = .ok true) :
    (refersTo node name).filter q = refersTo old name := by
  obtain ⟨allowed, hallowed, h⟩ := bind_eq_ok.mp h
  have hnew : ∀ text ∈ allowed.getD [], q (.str text) = false := fun text htext =>
    hdeclared text (allowedNew_subset hallowed htext)
  split at h
  · next items hitems =>
    obtain ⟨rest, hrest, h⟩ := bind_eq_ok.mp h
    obtain ⟨before, hbefore, h⟩ := bind_eq_ok.mp h
    have heq : eqItems rest before = true := pure_eq_ok.mp h
    have hrest := remaining_eq_ok hrest
    have hsame : refersTo old name = itemReferences name before := by
      cases hfield : field old name with
      | none =>
        rw [hfield] at hbefore
        rw [refersTo_of_none hname hfield, ← Except.ok.inj hbefore]
        unfold itemReferences
        split_ifs <;> rfl
      | list items =>
        rw [hfield] at hbefore
        rw [refersTo_of_list hname hfield]
        cases items with
        | nil => rw [← Except.ok.inj hbefore]
        | cons item items => rw [← Except.ok.inj hbefore]
      | bool | int | float | str | dict =>
        rw [hfield] at hlisted
        cases hlisted
    rw [refersTo_of_list hname hitems, ← filter_itemReferences items hnew, ← hrest,
      itemReferences_of_eqItems heq, ← hsame, List.filter_eq_self]
    exact hold
  · next hother =>
    have heq := pure_eq_ok.mp h
    cases hfield : field old name with
    | none =>
      rw [hfield] at heq
      rw [refersTo_of_none hname (eq_none_of_eq heq), refersTo_of_none hname hfield]
      rfl
    | list items =>
      rw [hfield] at heq
      obtain ⟨items', hitems'⟩ := eq_list_of_eq heq
      exact absurd hitems' (hother items')
    | bool | int | float | str | dict =>
      rw [hfield] at hlisted
      cases hlisted

/-! ### The edit -/

theorem of_referenceOnlyEdit {existing : Option Node}
    (h : referenceOnlyEdit node existing declared childKinds = .ok true) :
    ∃ old, existing = some old ∧
      (Value.dict (comparable node)).eq (.dict (comparable old)) = true ∧
      ∀ name ∈ referenceKeys, keepsReferences node old declared childKinds name = .ok true := by
  unfold referenceOnlyEdit at h
  split at h
  · cases pure_eq_ok.mp h
  · next old =>
    split_ifs at h with hkind hcomparable
    · cases pure_eq_ok.mp h
    · cases pure_eq_ok.mp h
    · exact ⟨old, rfl, by simpa using hcomparable, of_allM_true h⟩

end Lnpl.Protocol
