import Mathlib.Data.List.Nodup

/-!
# Dictionaries as the assignments that made them

`l : List (κ × β)` is the list of the assignments `d[k] = b` in the order they were made: the last
one under a key decides (`assigned`), so an assignment is read back if those to its key agree
(`assigned_of_forall`).
-/

namespace Lnpl.Lib

variable {κ β : Type} [DecidableEq κ]

/-- What the dictionary holds under a key. -/
def assigned (l : List (κ × β)) (k : κ) : Option β := l.reverse.lookup k

/-- The items of the dictionary, in the order in which their keys came in. -/
def dictItems (l : List (κ × β)) : List (κ × β) :=
  ((l.map Prod.fst).eraseDups).filterMap fun k => (assigned l k).map fun b => (k, b)

variable {l : List (κ × β)} {k : κ} {b : β}

theorem mem_of_assigned (h : assigned l k = some b) : (k, b) ∈ l := by
  obtain ⟨before, after, hl, _⟩ := List.lookup_eq_some_iff.mp h
  rw [← List.mem_reverse, hl]
  simp

theorem assigned_isSome_of_mem (h : (k, b) ∈ l) : ∃ b', assigned l k = some b' := by
  rw [← Option.isSome_iff_exists]
  apply List.lookup_isSome_iff.mpr
  exact ⟨(k, b), List.mem_reverse.mpr h, beq_self_eq_true k⟩

/-- Later assignments hide earlier ones. -/
theorem assigned_append (l l' : List (κ × β)) (k : κ) :
    assigned (l ++ l') k = (assigned l' k).or (assigned l k) := by
  unfold assigned
  rw [List.reverse_append, List.lookup_append]

/-- An assignment is read back if all that assign its key assign what it does. -/
theorem assigned_of_forall (h : (k, b) ∈ l) (hsame : ∀ b', (k, b') ∈ l → b' = b) :
    assigned l k = some b := by
  obtain ⟨b', hb'⟩ := assigned_isSome_of_mem h
  have hmem := mem_of_assigned hb'
  rw [hb', hsame b' hmem]

/-- Where no key is assigned twice, every assignment is read back. -/
theorem assigned_of_nodup (hl : (l.map Prod.fst).Nodup) (h : (k, b) ∈ l) :
    assigned l k = some b := by
  apply assigned_of_forall h
  intro b' h'
  exact (Prod.mk.inj (List.inj_on_of_nodup_map hl h' h rfl)).2

/-- Where no key comes twice, an entry is looked up. -/
theorem lookup_of_nodup (hl : (l.map Prod.fst).Nodup) (h : (k, b) ∈ l) : l.lookup k = some b := by
  have hassigned : assigned l.reverse k = some b := by
    apply assigned_of_nodup
    · rw [List.map_reverse]
      exact List.nodup_reverse.mpr hl
    · exact List.mem_reverse.mpr h
  rwa [assigned, List.reverse_reverse] at hassigned

theorem mem_of_lookup (h : l.lookup k = some b) : (k, b) ∈ l := by
  obtain ⟨before, after, rfl, -⟩ := List.lookup_eq_some_iff.mp h
  exact List.mem_append_right _ List.mem_cons_self

theorem mem_dictItems : (k, b) ∈ dictItems l ↔ assigned l k = some b := by
  unfold dictItems
  rw [List.mem_filterMap]
  constructor
  · rintro ⟨k', _, h⟩
    obtain ⟨b', hb', heq⟩ := Option.map_eq_some_iff.mp h
    obtain ⟨rfl, rfl⟩ := Prod.mk.inj heq
    exact hb'
  · intro h
    refine ⟨k, ?_, by rw [h]; rfl⟩
    rw [List.mem_eraseDups]
    exact List.mem_map_of_mem (mem_of_assigned h)

theorem mem_of_mem_dictItems {entry : κ × β} (h : entry ∈ dictItems l) : entry ∈ l :=
  mem_of_assigned (mem_dictItems.mp h)

/-- Every key that is assigned has an item. -/
theorem exists_mem_dictItems (h : (k, b) ∈ l) : ∃ b', (k, b') ∈ dictItems l := by
  obtain ⟨b', hb'⟩ := assigned_isSome_of_mem h
  exact ⟨b', (mem_dictItems).mpr hb'⟩

end Lnpl.Lib
