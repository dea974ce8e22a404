import Mathlib.Data.List.Pairwise
import Mathlib.Data.List.Perm.Basic
import Mathlib.Order.Compare

/-!
# Stable sorting by a comparison that may fail

`sortBy lt l` inserts the elements of `l` one after another, each behind those it is not less than.
Where `lt` answers by a comparison `cmp`, the result is a permutation of `l` ordered by `cmp`, and by
the order of `l` among equals (`sortBy_ok`).  Where `lt` fails on elements of different kinds, a list
that holds two kinds is not sorted (`kind_eq_of_sortBy`).
-/

namespace Lnpl.Lib

variable {α β ε κ : Type} {lt : α → α → Except ε Bool} {cmp : α → α → Ordering} {S : α → α → Prop}

/-- An element inserted behind those it is not less than. -/
def insertBy (lt : α → α → Except ε Bool) (a : α) : List α → Except ε (List α)
  | [] => .ok [a]
  | b :: l => do
    if ← lt a b then return a :: b :: l
    return b :: (← insertBy lt a l)

/-- The elements inserted one after another. -/
def sortBy (lt : α → α → Except ε Bool) (l : List α) : Except ε (List α) :=
  l.foldlM (fun sorted a => insertBy lt a sorted) []

/-- The comparison answers by `cmp`. -/
def Answers (lt : α → α → Except ε Bool) (cmp : α → α → Ordering) (a b : α) : Prop :=
  lt a b = .ok (cmp a b = .lt)

/-- Less, or equal and earlier. -/
def Before (cmp : α → α → Ordering) (S : α → α → Prop) (a b : α) : Prop :=
  cmp a b = .lt ∨ cmp a b = .eq ∧ S a b

/-! ### One insertion -/

variable {a b : α} {l r : List α} {kind : α → κ}

theorem insertBy_less (h : lt a b = .ok true) : insertBy lt a (b :: l) = .ok (a :: b :: l) := by
  rw [insertBy, h]
  rfl

theorem insertBy_not_less (h : lt a b = .ok false) :
    insertBy lt a (b :: l) = (insertBy lt a l).map (b :: ·) := by
  rw [insertBy, h]
  rfl

theorem insertBy_error {e : ε} (h : lt a b = .error e) : insertBy lt a (b :: l) = .error e := by
  rw [insertBy, h]
  rfl

/-- An element is inserted where it belongs. -/
theorem insertBy_ok [Std.TransCmp cmp] (hlt : ∀ b ∈ l, Answers lt cmp a b) (hS : ∀ b ∈ l, S b a)
    (hl : l.Pairwise (Before cmp S)) :
    ∃ r, insertBy lt a l = .ok r ∧ r.Perm (a :: l) ∧ r.Pairwise (Before cmp S) := by
  induction l with
  | nil => exact ⟨[a], rfl, List.Perm.refl _, List.pairwise_singleton _ a⟩
  | cons b l ih =>
    have hab : lt a b = .ok (cmp a b = .lt) := hlt b List.mem_cons_self
    rw [List.pairwise_cons] at hl
    by_cases h : cmp a b = .lt
    · refine ⟨a :: b :: l, insertBy_less (by rw [hab, decide_eq_true h]), List.Perm.refl _, ?_⟩
      refine List.pairwise_cons.mpr ⟨fun c hc => Or.inl ?_, List.pairwise_cons.mpr hl⟩
      rcases List.mem_cons.mp hc with rfl | hc
      · exact h
      · rcases hl.1 c hc with hbc | ⟨hbc, -⟩
        · exact Std.TransCmp.lt_trans h hbc
        · exact Std.TransCmp.lt_of_lt_of_eq h hbc
    · obtain ⟨r, hr, hperm, hsorted⟩ := ih (fun c hc => hlt c (List.mem_cons_of_mem b hc))
        (fun c hc => hS c (List.mem_cons_of_mem b hc)) hl.2
      refine ⟨b :: r, ?_, ?_, List.pairwise_cons.mpr ⟨fun c hc => ?_, hsorted⟩⟩
      · rw [insertBy_not_less (by rw [hab, decide_eq_false h]), hr]
        rfl
      · exact (hperm.cons b).trans (List.Perm.swap a b l)
      · rcases List.mem_cons.mp (hperm.mem_iff.mp hc) with rfl | hc
        · -- the new element is not less than `b`, which is earlier
          have hswap : cmp b c = (cmp c b).swap := Std.OrientedCmp.eq_swap
          cases hcb : cmp c b with
          | lt => exact absurd hcb h
          | eq => exact Or.inr ⟨by rw [hswap, hcb]; rfl, hS b List.mem_cons_self⟩
          | gt => exact Or.inl (by rw [hswap, hcb]; rfl)
        · exact hl.1 c hc

/-! ### Sorting -/

variable {sorted : List α} {f : β → α}

/-- The elements of a list inserted into a sorted one. -/
theorem foldlM_insertBy_ok [Std.TransCmp cmp]
    (hlt : ∀ a ∈ l ++ sorted, ∀ b ∈ l ++ sorted, Answers lt cmp a b)
    (hS : ∀ a ∈ l, ∀ b ∈ sorted, S b a) (hl : l.Pairwise S)
    (hsorted : sorted.Pairwise (Before cmp S)) :
    ∃ r, l.foldlM (fun sorted a => insertBy lt a sorted) sorted = .ok r ∧ r.Perm (l ++ sorted) ∧
      r.Pairwise (Before cmp S) := by
  induction l generalizing sorted with
  | nil => exact ⟨sorted, rfl, List.Perm.refl _, hsorted⟩
  | cons a l ih =>
    rw [List.pairwise_cons] at hl
    have hhere : a ∈ a :: l ++ sorted := List.mem_cons_self
    have hthere : ∀ b ∈ sorted, b ∈ a :: l ++ sorted := fun b hb => List.mem_append_right _ hb
    obtain ⟨s, hs, hperm, hs'⟩ := insertBy_ok (fun b hb => hlt a hhere b (hthere b hb))
      (hS a List.mem_cons_self) hsorted
    have hmem : ∀ b ∈ l ++ s, b ∈ a :: l ++ sorted := by
      intro b hb
      rcases List.mem_append.mp hb with hb | hb
      · exact List.mem_append_left _ (List.mem_cons_of_mem a hb)
      · rcases List.mem_cons.mp (hperm.mem_iff.mp hb) with rfl | hb
        · exact hhere
        · exact hthere b hb
    have hearlier : ∀ b ∈ l, ∀ c ∈ s, S c b := by
      intro b hb c hc
      rcases List.mem_cons.mp (hperm.mem_iff.mp hc) with rfl | hc
      · exact hl.1 b hb
      · exact hS b (List.mem_cons_of_mem a hb) c hc
    obtain ⟨r, hr, hrperm, hr'⟩ :=
      ih (fun b hb c hc => hlt b (hmem b hb) c (hmem c hc)) hearlier hl.2 hs'
    refine ⟨r, ?_, hrperm.trans ?_, hr'⟩
    · rw [List.foldlM_cons, hs]
      exact hr
    · exact (hperm.append_left l).trans List.perm_middle

/-- **Sorting** by a comparison that answers: the result is ordered by it, and by the order of the
list among equals. -/
theorem sortBy_ok [Std.TransCmp cmp] (hlt : ∀ a ∈ l, ∀ b ∈ l, Answers lt cmp a b)
    (hl : l.Pairwise S) :
    ∃ r, sortBy lt l = .ok r ∧ r.Perm l ∧ r.Pairwise (Before cmp S) := by
  have hlt' : ∀ a ∈ l ++ [], ∀ b ∈ l ++ [], Answers lt cmp a b := by
    rw [List.append_nil]
    exact hlt
  have hS : ∀ a ∈ l, ∀ b ∈ ([] : List α), S b a := fun _ _ _ h => nomatch h
  obtain ⟨r, hr, hperm, hsorted⟩ := foldlM_insertBy_ok hlt' hS hl List.Pairwise.nil
  rw [List.append_nil] at hperm
  exact ⟨r, hr, hperm, hsorted⟩

/-- A list whose neighbours are in strict order is what sorting by that order gives. -/
theorem mergeSort_eq_of_pairwise [Std.TransCmp cmp] (hperm : r.Perm l)
    (hr : r.Pairwise fun a b => cmp a b = .lt) : l.mergeSort (fun a b => (cmp a b).isLE) = r := by
  have htrans : ∀ a b c : α, (cmp a b).isLE → (cmp b c).isLE → (cmp a c).isLE :=
    fun a b c => Std.TransCmp.isLE_trans
  have htotal : ∀ a b : α, ((cmp a b).isLE || (cmp b a).isLE) = true := by
    intro a b
    have hswap : cmp b a = (cmp a b).swap := Std.OrientedCmp.eq_swap
    rw [hswap]
    cases cmp a b <;> rfl
  have hsymm : Std.Symm fun a b : α => a = b ∨ cmp a b ≠ .eq :=
    ⟨fun a b h => h.imp Eq.symm fun h heq => h (Std.OrientedCmp.eq_comm.mp heq)⟩
  have hdistinct : ∀ a ∈ r, ∀ b ∈ r, cmp a b = .eq → a = b := by
    have hpair : r.Pairwise fun a b => a = b ∨ cmp a b ≠ .eq :=
      hr.imp fun h => Or.inr (by rw [h]; exact fun heq => nomatch heq)
    intro a ha b hb hab
    by_contra hne
    exact (hpair.forall ha hb hne).elim hne fun h => h hab
  have hantisymm : ∀ a b, a ∈ l.mergeSort (fun a b => (cmp a b).isLE) → b ∈ r →
      (cmp a b).isLE → (cmp b a).isLE → a = b := fun a b ha hb hab hba =>
    hdistinct a (hperm.mem_iff.mpr (List.mem_mergeSort.mp ha)) b hb
      (Std.OrientedCmp.isLE_antisymm hab hba)
  have hle : r.Pairwise fun a b => (cmp a b).isLE := hr.imp fun h => by rw [h]; rfl
  exact @List.Perm.eq_of_pairwise _ (fun a b => (cmp a b).isLE) _ _ hantisymm
    (List.pairwise_mergeSort htrans htotal l) hle ((List.mergeSort_perm l _).trans hperm.symm)

/-! ### Elements that cannot be compared -/

theorem perm_of_insertBy (h : insertBy lt a l = .ok r) : r.Perm (a :: l) := by
  induction l generalizing r with
  | nil =>
    obtain rfl := Except.ok.inj h
    exact List.Perm.refl _
  | cons b l ih =>
    cases hab : lt a b with
    | error e =>
      rw [insertBy_error hab] at h
      exact nomatch h
    | ok less =>
      cases less with
      | true =>
        rw [insertBy_less hab] at h
        obtain rfl := Except.ok.inj h
        exact List.Perm.refl _
      | false =>
        rw [insertBy_not_less hab] at h
        cases hrest : insertBy lt a l with
        | error e =>
          rw [hrest] at h
          exact nomatch h
        | ok s =>
          rw [hrest] at h
          obtain rfl := Except.ok.inj h
          exact ((ih hrest).cons b).trans (List.Perm.swap a b l)

/-- Sorting loses and adds nothing. -/
theorem perm_of_sortBy (h : sortBy lt l = .ok r) : r.Perm l := by
  have hfold : ∀ sorted : List α,
      l.foldlM (fun sorted a => insertBy lt a sorted) sorted = .ok r → r.Perm (l ++ sorted) := by
    clear h
    induction l with
    | nil =>
      intro sorted h
      obtain rfl := Except.ok.inj h
      exact List.Perm.refl _
    | cons a l ih =>
      intro sorted h
      rw [List.foldlM_cons] at h
      cases hs : insertBy lt a sorted with
      | error e =>
        rw [hs] at h
        exact nomatch h
      | ok s =>
        rw [hs] at h
        exact (ih s h).trans ((perm_of_insertBy hs).append_left l |>.trans List.perm_middle)
  have hperm := hfold [] h
  rw [List.append_nil] at hperm
  exact hperm

section

variable (hkind : ∀ a b less, lt a b = .ok less → kind a = kind b)
include hkind

/-- An element is inserted only among elements of its kind. -/
theorem kind_eq_of_insertBy (h : insertBy lt a (b :: l) = .ok r) : kind a = kind b := by
  cases hab : lt a b with
  | error e =>
    rw [insertBy_error hab] at h
    exact nomatch h
  | ok less => exact hkind a b less hab

/-- All elements of a list that is sorted are of one kind. -/
theorem kind_eq_of_foldlM (hsorted : ∀ a ∈ sorted, ∀ b ∈ sorted, kind a = kind b)
    (h : l.foldlM (fun sorted a => insertBy lt a sorted) sorted = .ok r) :
    ∀ a ∈ l ++ sorted, ∀ b ∈ l ++ sorted, kind a = kind b := by
  induction l generalizing sorted with
  | nil => exact hsorted
  | cons a l ih =>
    rw [List.foldlM_cons] at h
    cases hs : insertBy lt a sorted with
    | error e =>
      rw [hs] at h
      exact nomatch h
    | ok s =>
      rw [hs] at h
      have hperm := perm_of_insertBy hs
      have hone : ∀ b ∈ a :: sorted, kind b = kind a := by
        intro b hb
        rcases List.mem_cons.mp hb with rfl | hb
        · rfl
        · cases sorted with
          | nil => exact nomatch hb
          | cons c rest =>
            rw [hsorted b hb c List.mem_cons_self, kind_eq_of_insertBy hkind hs]
      have hall := ih (fun b hb c hc => by
        rw [hone b (hperm.mem_iff.mp hb), hone c (hperm.mem_iff.mp hc)]) h
      have hmem : ∀ b ∈ a :: l ++ sorted, b ∈ l ++ s := by
        intro b hb
        rw [List.mem_append, hperm.mem_iff, List.mem_cons]
        rw [List.cons_append, List.mem_cons, List.mem_append] at hb
        tauto
      exact fun b hb c hc => hall b (hmem b hb) c (hmem c hc)

theorem kind_eq_of_sortBy (h : sortBy lt l = .ok r) : ∀ a ∈ l, ∀ b ∈ l, kind a = kind b := by
  have hnil : ∀ a ∈ ([] : List α), ∀ b ∈ ([] : List α), kind a = kind b := fun _ h => nomatch h
  have hall := kind_eq_of_foldlM hkind hnil h
  rw [List.append_nil] at hall
  exact hall

end

/-! ### Images -/

/-- Insertion commutes with a map under which the comparison is the same. -/
theorem insertBy_map (a : β) (l : List β) :
    insertBy lt (f a) (l.map f) =
      (insertBy (fun a b => lt (f a) (f b)) a l).map (List.map f) := by
  induction l with
  | nil => rfl
  | cons b l ih =>
    rw [List.map_cons]
    rw [insertBy, insertBy]
    cases lt (f a) (f b) with
    | error e => rfl
    | ok less =>
      cases less with
      | true => rfl
      | false =>
        show (insertBy lt (f a) (l.map f)).map (f b :: ·) = _
        rw [ih]
        cases insertBy (fun a b => lt (f a) (f b)) a l <;> rfl

theorem sortBy_map (l : List β) :
    sortBy lt (l.map f) = (sortBy (fun a b => lt (f a) (f b)) l).map (List.map f) := by
  have h : ∀ sorted : List β, (l.map f).foldlM (fun sorted a => insertBy lt a sorted) (sorted.map f) =
      (l.foldlM (fun sorted a => insertBy (fun a b => lt (f a) (f b)) a sorted) sorted).map
        (List.map f) := by
    induction l with
    | nil => exact fun _ => rfl
    | cons a l ih =>
      intro sorted
      rw [List.map_cons, List.foldlM_cons, List.foldlM_cons, insertBy_map]
      cases insertBy (fun a b => lt (f a) (f b)) a sorted with
      | error e => rfl
      | ok s => exact ih s
  exact h []

end Lnpl.Lib
