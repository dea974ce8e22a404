import Std.Data.ExtTreeMap

/-!
# Keyed tables

A `Tables ε κ β` holds, for every name `e : ε`, a finite map from keys to values, enumerated in
key order by `itemsOf`.  Two of them are equal as soon as they answer every lookup alike
(`Tables.ext_get`), so equality of stores is a statement about lookups.
-/

namespace Lnpl.Lib

/-- One finite map in key order for every name. -/
def Tables (ε κ β : Type) [Ord κ] : Type := ε → Std.ExtTreeMap κ β

namespace Tables

variable {ε κ β γ : Type} [DecidableEq ε] [Ord κ]

/-- No table has a row. -/
def empty : Tables ε κ β := fun _ => ∅

variable [Std.TransOrd κ]

/-- The row under a key. -/
def get (T : Tables ε κ β) (e : ε) (k : κ) : Option β := (T e)[k]?

/-- The tables with a row stored under a key, whatever was there. -/
def set (T : Tables ε κ β) (e : ε) (k : κ) (b : β) : Tables ε κ β :=
  fun e' => if e' = e then (T e).insert k b else T e'

/-- The tables without the row under a key. -/
def erase (T : Tables ε κ β) (e : ε) (k : κ) : Tables ε κ β :=
  fun e' => if e' = e then (T e).erase k else T e'

/-- The tables with every stored value replaced. -/
def map (f : ε → κ → β → γ) (T : Tables ε κ β) : Tables ε κ γ := fun e => (T e).map (f e)

/-- The rows of one table, in ascending key order, with their keys. -/
def itemsOf (T : Tables ε κ β) (e : ε) : List (κ × β) := (T e).toList

omit [DecidableEq ε] in
@[simp]
theorem get_empty (e : ε) (k : κ) : (empty : Tables ε κ β).get e k = none := by
  simp [get, empty]

variable [Std.LawfulEqOrd κ]

omit [DecidableEq ε] in
@[simp]
theorem get_map (f : ε → κ → β → γ) (T : Tables ε κ β) (e : ε) (k : κ) :
    (T.map f).get e k = (T.get e k).map (f e k) := by
  simp [get, map]

omit [DecidableEq ε] in
/-- Tables are determined by their lookups. -/
theorem ext_get {T U : Tables ε κ β} (h : ∀ e k, T.get e k = U.get e k) : T = U :=
  funext fun e => Std.ExtTreeMap.ext_getElem? fun k => h e k

variable [DecidableEq κ]

section

variable (T : Tables ε κ β)
include T

theorem get_set (e e' : ε) (k k' : κ) (b : β) :
    (T.set e k b).get e' k' = if e' = e ∧ k' = k then some b else T.get e' k' := by
  unfold get set
  by_cases he : e' = e
  · subst he
    simp [Std.ExtTreeMap.getElem?_insert, eq_comm (a := k)]
  · simp [he]

theorem get_erase (e e' : ε) (k k' : κ) :
    (T.erase e k).get e' k' = if e' = e ∧ k' = k then none else T.get e' k' := by
  unfold get erase
  by_cases he : e' = e
  · subst he
    simp [Std.ExtTreeMap.getElem?_erase, eq_comm (a := k)]
  · simp [he]

@[simp]
theorem get_set_self (e : ε) (k : κ) (b : β) : (T.set e k b).get e k = some b := by
  simp [get_set]

@[simp]
theorem get_erase_self (e : ε) (k : κ) : (T.erase e k).get e k = none := by
  simp [get_erase]

end

end Tables

end Lnpl.Lib
