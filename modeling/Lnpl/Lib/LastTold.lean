import Mathlib.Data.List.Basic

/-!
# The last word

In a list whose elements may tell something about a subject, the last one that does decides
(`lastTold`).  A fold that writes what an element tells, and leaves the subject alone where it tells
nothing, ends with what was told last (`lastTold_foldlM`).
-/

namespace Lnpl.Lib

variable {α β γ ε σ : Type*}

/-- What the last element that tells anything tells. -/
def lastTold (tells : α → Option β) (xs : List α) : Option β := (xs.filterMap tells).getLast?

@[simp]
theorem lastTold_nil (tells : α → Option β) : lastTold tells [] = none := rfl

theorem lastTold_cons (tells : α → Option β) (x : α) (xs : List α) :
    lastTold tells (x :: xs) = (lastTold tells xs).or (tells x) := by
  unfold lastTold
  cases hx : tells x with
  | none => rw [List.filterMap_cons_none hx, Option.or_none]
  | some b =>
    rw [List.filterMap_cons_some hx, List.getLast?_cons]
    cases (xs.filterMap tells).getLast? <;> rfl

variable {tells : α → Option β} {xs : List α}

variable {b : β} {step : σ → α → Except ε σ} {s s' : σ}

/-- What is told last is told by some element. -/
theorem exists_of_lastTold (h : lastTold tells xs = some b) : ∃ x ∈ xs, tells x = some b := by
  have hmem := List.mem_of_getLast? h
  rwa [List.mem_filterMap] at hmem

theorem lastTold_eq_none : lastTold tells xs = none ↔ ∀ x ∈ xs, tells x = none := by
  rw [lastTold, List.getLast?_eq_none_iff, List.filterMap_eq_nil_iff]

/-- Elements that tell one thing more can only take the last word for it. -/
theorem lastTold_extend {tells' : α → Option β} {d : β}
    (hsome : ∀ x b, tells x = some b → tells' x = some b)
    (hnone : ∀ x, tells x = none → tells' x = none ∨ tells' x = some d)
    (h : lastTold tells xs = some b) :
    lastTold tells' xs = some b ∨ lastTold tells' xs = some d := by
  induction xs with
  | nil => cases h
  | cons x xs ih =>
    rw [lastTold_cons] at h ⊢
    cases hxs : lastTold tells xs with
    | some b' =>
      rw [hxs, Option.some_or] at h
      rcases ih (hxs.trans h) with hlast | hlast
      · left
        rw [hlast, Option.some_or]
      · right
        rw [hlast, Option.some_or]
    | none =>
      rw [hxs, Option.none_or] at h
      rw [hsome x b h]
      cases hlast : lastTold tells' xs with
      | none =>
        left
        rfl
      | some b' =>
        right
        obtain ⟨y, hy, htold⟩ := exists_of_lastTold hlast
        rcases hnone y (lastTold_eq_none.1 hxs y hy) with hy' | hy'
        · rw [hy'] at htold
          cases htold
        · rw [hy'] at htold
          rw [Option.some_or, htold]

/-- A fold that succeeds has taken a step at every element. -/
theorem exists_step_of_foldlM (h : xs.foldlM step s = .ok s') {x : α} (hx : x ∈ xs) :
    ∃ s₁ s₂, step s₁ x = .ok s₂ := by
  induction xs generalizing s with
  | nil => cases hx
  | cons y ys ih =>
    rw [List.foldlM_cons] at h
    cases hy : step s y with
    | error e =>
      rw [hy] at h
      cases h
    | ok s₁ =>
      rw [hy] at h
      rcases List.mem_cons.1 hx with rfl | hx
      · exact ⟨s, s₁, hy⟩
      · exact ih h hx

/-- A fold that writes what is told ends with what was told last. -/
theorem lastTold_foldlM (reads : σ → γ) (tells : α → Option β) (meets : β → γ → Prop)
    (htells : ∀ s x s' b, tells x = some b → step s x = .ok s' → meets b (reads s'))
    (hsilent : ∀ s x s', tells x = none → step s x = .ok s' → reads s' = reads s)
    (h : xs.foldlM step s = .ok s') :
    (∀ b, lastTold tells xs = some b → meets b (reads s')) ∧
      (lastTold tells xs = none → reads s' = reads s) := by
  induction xs generalizing s with
  | nil =>
    cases h
    refine ⟨?_, fun _ => rfl⟩
    intro b hb
    cases hb
  | cons x xs ih =>
    rw [List.foldlM_cons] at h
    cases hx : step s x with
    | error e =>
      rw [hx] at h
      cases h
    | ok s₁ =>
      rw [hx] at h
      obtain ⟨hlast, hquiet⟩ := ih h
      rw [lastTold_cons]
      cases hxs : lastTold tells xs with
      | some b =>
        rw [Option.some_or]
        refine ⟨?_, fun hnone => by cases hnone⟩
        rintro _ ⟨⟩
        exact hlast b hxs
      | none =>
        rw [Option.none_or]
        refine ⟨?_, ?_⟩
        · intro b hb
          rw [hquiet hxs]
          exact htells s x s₁ b hb hx
        · intro hnone
          rw [hquiet hxs]
          exact hsilent s x s₁ hnone hx

end Lnpl.Lib
