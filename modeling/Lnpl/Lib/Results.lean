import Mathlib.Data.List.Forall2

/-!
# Results of fallible code

When a bind, a map or a run over a list in `Except` ends with a value.
-/

namespace Lnpl.Lib

universe u v

variable {ε α β γ : Type}

variable {f : α → Except ε β} {b : β} {xs : List α} {ys : List β}

variable {x : Except ε α} {zs : List γ} {g : α → Option β} {k : β → β}

/-- A bind succeeds with what its second part makes of the value of the first. -/
theorem bind_eq_ok {ε : Type v} {α β : Type u} {x : Except ε α} {f : α → Except ε β} {b : β} :
    (x >>= f) = .ok b ↔ ∃ a, x = .ok a ∧ f a = .ok b := by
  cases x <;> simp [bind, Except.bind]

theorem map_eq_ok {f : α → β} : f <$> x = .ok b ↔ ∃ a, x = .ok a ∧ f a = b := by
  cases x <;> simp [Functor.map, Except.map]

theorem pure_eq_ok {a b : α} : (pure a : Except ε α) = .ok b ↔ a = b := by
  simp [pure, Except.pure]

/-- A run over a list succeeds with the results of its elements. -/
theorem mapM_eq_ok : xs.mapM f = .ok ys ↔ List.Forall₂ (fun x y => f x = .ok y) xs ys := by
  induction xs generalizing ys with
  | nil =>
    rw [List.mapM_nil, pure_eq_ok, List.forall₂_nil_left_iff]
    exact eq_comm
  | cons x xs ih =>
    rw [List.mapM_cons, bind_eq_ok, List.forall₂_cons_left_iff]
    simp only [bind_eq_ok, pure_eq_ok, ih]
    constructor
    · rintro ⟨y, hy, ys', hys, rfl⟩
      exact ⟨y, ys', hy, hys, rfl⟩
    · rintro ⟨y, ys', hy, hys, rfl⟩
      exact ⟨y, hy, ys', hys, rfl⟩

/-- The results of a run over a list are those of its elements. -/
theorem mem_mapM (h : xs.mapM f = .ok ys) {y : β} : y ∈ ys ↔ ∃ x ∈ xs, f x = .ok y := by
  induction mapM_eq_ok.mp h with
  | nil => simp
  | @cons x z xs zs hz hzs ih =>
    rw [List.mem_cons, ih (mapM_eq_ok.mpr hzs), List.exists_mem_cons_iff, hz, Except.ok.injEq,
      eq_comm]

/-- What every element's result satisfies, all results of a run over a list satisfy. -/
theorem forall_of_mapM {P : β → Prop} (h : xs.mapM f = .ok ys)
    (hf : ∀ x ∈ xs, ∀ y, f x = .ok y → P y) : ∀ y ∈ ys, P y := by
  intro y hy
  obtain ⟨x, hx, hxy⟩ := (mem_mapM h).mp hy
  exact hf x hx y hxy

/-- Every element of the first of two related lists is related to one of the second. -/
theorem exists_of_forall₂ {R : α → β → Prop} (h : List.Forall₂ R xs ys) {x : α} (hx : x ∈ xs) :
    ∃ y ∈ ys, R x y := by
  induction h with
  | nil => cases hx
  | @cons z y xs ys hz hys ih =>
    rcases List.mem_cons.mp hx with rfl | hx
    · exact ⟨y, List.mem_cons_self, hz⟩
    · obtain ⟨y', hy', hxy⟩ := ih hx
      exact ⟨y', List.mem_cons_of_mem y hy', hxy⟩

/-- A run over a list has a result for every element. -/
theorem exists_of_mapM (h : xs.mapM f = .ok ys) {x : α} (hx : x ∈ xs) : ∃ y ∈ ys, f x = .ok y :=
  exists_of_forall₂ (mapM_eq_ok.mp h) hx

/-- A run over a list succeeds if it does so on every element. -/
theorem exists_mapM (h : ∀ x ∈ xs, ∃ y, f x = .ok y) : ∃ ys, xs.mapM f = .ok ys := by
  induction xs with
  | nil => exact ⟨[], rfl⟩
  | cons x xs ih =>
    obtain ⟨y, hy⟩ := h x List.mem_cons_self
    obtain ⟨ys, hys⟩ := ih fun x' hx' => h x' (List.mem_cons_of_mem x hx')
    refine ⟨y :: ys, ?_⟩
    rw [List.mapM_cons, hy, hys]
    rfl

/-- A run over a list stops where one of its elements does. -/
theorem exists_of_mapM_error {e : ε} (h : xs.mapM f = .error e) : ∃ x ∈ xs, f x = .error e := by
  induction xs with
  | nil => cases h
  | cons x xs ih =>
    rw [List.mapM_cons] at h
    cases hx : f x with
    | error e' =>
      rw [hx] at h
      cases h
      exact ⟨x, List.mem_cons_self, hx⟩
    | ok y =>
      cases hxs : xs.mapM f with
      | error e' =>
        rw [hx, hxs] at h
        cases h
        obtain ⟨x', hx', hf⟩ := ih hxs
        exact ⟨x', List.mem_cons_of_mem x hx', hf⟩
      | ok ys =>
        rw [hx, hxs] at h
        cases h

/-- A run over the images of a list returns what `f` makes of each. -/
theorem mapM_map_eq_ok {g : γ → α} {k : γ → β} (h : ∀ z ∈ zs, f (g z) = .ok (k z)) :
    (zs.map g).mapM f = .ok (zs.map k) := by
  rw [mapM_eq_ok, List.forall₂_map_left_iff, List.forall₂_map_right_iff]
  exact List.forall₂_same.mpr h

/-- A run over a list, followed by a relation of each element to what it was made from. -/
theorem forall₂_mapM {R : γ → α → Prop} {S : γ → β → Prop} (hxs : List.Forall₂ R zs xs)
    (h : xs.mapM f = .ok ys) (hf : ∀ z x y, R z x → f x = .ok y → S z y) :
    List.Forall₂ S zs ys := by
  have hys := mapM_eq_ok.mp h
  induction hxs generalizing ys with
  | nil =>
    cases hys
    exact .nil
  | cons hzx hxs ih =>
    cases hys with
    | cons hy hys => exact .cons (hf _ _ _ hzx hy) (ih (mapM_eq_ok.mpr hys) hys)

/-- A change of the elements that every single run follows, the run over the list follows. -/
theorem mapM_map {g : α → α} (hf : ∀ x y, f x = .ok y → f (g x) = .ok (k y))
    (h : xs.mapM f = .ok ys) :
    (xs.map g).mapM f = .ok (ys.map k) := by
  rw [mapM_eq_ok, List.forall₂_map_left_iff, List.forall₂_map_right_iff]
  exact (mapM_eq_ok.mp h).imp hf

/-- A change of the elements that every step follows, the whole run follows. -/
theorem foldlM_map {f : β → α → Except ε β} {g : α → α} {b' : β}
    (hf : ∀ b x b', f b x = .ok b' → f (k b) (g x) = .ok (k b')) (h : xs.foldlM f b = .ok b') :
    (xs.map g).foldlM f (k b) = .ok (k b') := by
  induction xs generalizing b with
  | nil =>
    rw [List.foldlM_nil, pure_eq_ok] at h
    rw [h]
    rfl
  | cons x xs ih =>
    rw [List.foldlM_cons] at h
    obtain ⟨b₁, hstep, h⟩ := bind_eq_ok.mp h
    rw [List.map_cons, List.foldlM_cons, hf b x b₁ hstep]
    exact ih h

/-! ### Checks of lists -/

/-- A check that succeeds on a list succeeds on every element. -/
theorem of_forM {f : α → Except ε Unit} (h : xs.forM f = .ok ()) : ∀ x ∈ xs, f x = .ok () := by
  induction xs with
  | nil => exact fun x hx => absurd hx List.not_mem_nil
  | cons x xs ih =>
    obtain ⟨_, hx, hxs⟩ := bind_eq_ok.mp h
    exact List.forall_mem_cons.mpr ⟨hx, ih hxs⟩

/-- A test succeeds, and says yes. -/
def holds : Except ε Bool → Bool
  | .ok b => b
  | .error _ => false

theorem filterAuxM_eq_ok {f : α → Except ε Bool} {acc ys : List α}
    (h : xs.filterAuxM f acc = .ok ys) :
    (∀ x ∈ xs, ∃ b, f x = .ok b) ∧ ys = (xs.filter fun x => holds (f x)).reverse ++ acc := by
  induction xs generalizing acc with
  | nil => exact ⟨fun x hx => absurd hx List.not_mem_nil, (pure_eq_ok.mp h).symm⟩
  | cons x xs ih =>
    obtain ⟨b, hb, h⟩ := bind_eq_ok.mp h
    obtain ⟨hall, hys⟩ := ih h
    refine ⟨fun y hy => ?_, ?_⟩
    · rcases List.mem_cons.mp hy with rfl | hy
      · exact ⟨b, hb⟩
      · exact hall y hy
    · rw [hys, List.filter_cons, hb]
      cases b with
      | true => simp [holds]
      | false => simp [holds]

/-- A filter whose test raises nothing keeps the elements on which it says yes. -/
theorem filterM_eq_ok {f : α → Except ε Bool} {ys : List α} (h : xs.filterM f = .ok ys) :
    (∀ x ∈ xs, ∃ b, f x = .ok b) ∧ ys = xs.filter fun x => holds (f x) := by
  obtain ⟨zs, haux, h⟩ := bind_eq_ok.mp h
  obtain ⟨hall, rfl⟩ := filterAuxM_eq_ok haux
  exact ⟨hall, by rw [← pure_eq_ok.mp h]; simp⟩

theorem filterMapM_loop_eq_nil {f : α → Except ε (Option β)} {acc : List β}
    (h : List.filterMapM.loop f xs acc = .ok []) : acc = [] ∧ ∀ x ∈ xs, f x = .ok none := by
  induction xs generalizing acc with
  | nil =>
    have hnil : acc.reverse = [] := pure_eq_ok.mp h
    exact ⟨List.reverse_eq_nil_iff.mp hnil, fun x hx => absurd hx List.not_mem_nil⟩
  | cons x xs ih =>
    obtain ⟨found, hfound, h⟩ := bind_eq_ok.mp h
    cases found with
    | none =>
      obtain ⟨hacc, hall⟩ := ih h
      refine ⟨hacc, fun y hy => ?_⟩
      rcases List.mem_cons.mp hy with rfl | hy
      · exact hfound
      · exact hall y hy
    | some b => exact absurd (ih h).1 (List.cons_ne_nil _ _)

/-- Nothing is found in a list if nothing is found in any element. -/
theorem of_filterMapM_nil {f : α → Except ε (Option β)} (h : xs.filterMapM f = .ok []) :
    ∀ x ∈ xs, f x = .ok none :=
  (filterMapM_loop_eq_nil h).2

theorem filterMapM_loop_eq_ok {f : α → Except ε (Option β)} (h : ∀ x ∈ xs, f x = .ok (g x))
    (acc : List β) :
    List.filterMapM.loop f xs acc = .ok (acc.reverse ++ xs.filterMap g) := by
  induction xs generalizing acc with
  | nil =>
    rw [List.filterMap_nil, List.append_nil]
    rfl
  | cons x xs ih =>
    have hrest := ih fun y hy => h y (List.mem_cons_of_mem x hy)
    rw [List.filterMapM.loop, h x List.mem_cons_self, List.filterMap_cons]
    cases g x with
    | none => exact hrest acc
    | some b =>
      have hb := hrest (b :: acc)
      rw [List.reverse_cons, List.append_assoc, List.singleton_append] at hb
      exact hb

/-- A selection from a list, where it succeeds on every element. -/
theorem filterMapM_eq_ok {f : α → Except ε (Option β)} (h : ∀ x ∈ xs, f x = .ok (g x)) :
    xs.filterMapM f = .ok (xs.filterMap g) :=
  filterMapM_loop_eq_ok h []

/-- A test of all elements that says yes says yes of each. -/
theorem of_allM_true {f : α → Except ε Bool} (h : xs.allM f = .ok true) :
    ∀ x ∈ xs, f x = .ok true := by
  induction xs with
  | nil => exact fun x hx => absurd hx List.not_mem_nil
  | cons x xs ih =>
    obtain ⟨b, hb, h⟩ := bind_eq_ok.mp h
    cases b with
    | true =>
      exact List.forall_mem_cons.mpr ⟨hb, ih h⟩
    | false => cases pure_eq_ok.mp h

/-- A search that finds nothing finds nothing in any element. -/
theorem of_findSomeM?_none {f : α → Except ε (Option β)} (h : xs.findSomeM? f = .ok none) :
    ∀ x ∈ xs, f x = .ok none := by
  induction xs with
  | nil => exact fun x hx => absurd hx List.not_mem_nil
  | cons x xs ih =>
    obtain ⟨found, hfound, h⟩ := bind_eq_ok.mp h
    cases found with
    | some b => cases pure_eq_ok.mp h
    | none =>
      exact List.forall_mem_cons.mpr ⟨hfound, ih h⟩

end Lnpl.Lib
