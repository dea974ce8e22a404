import Mathlib.Algebra.Ring.Nat
import Lnpl.Lib.Results

/-!
# Up to the first error

A fallible run over a list ends at the first element on which it raises, so what lies behind that
element does not count.  `NoneBefore stops bad xs` says that no element is bad of those up to the
first that stops the run.  Where what a step raises is decided by its element alone, a run raises
permitted errors only iff no element is bad before one stops it (`raises_only_iff`).
-/

namespace Lnpl.Lib

variable {α β ε σ : Type}

/-! ### Before the first stop -/

/-- No element is bad unless one before it stops. -/
def NoneBefore (stops bad : α → Prop) (xs : List α) : Prop :=
  ∀ before x after, xs = before ++ x :: after → (∀ y ∈ before, ¬ stops y) → ¬ bad x

theorem noneBefore_nil (stops bad : α → Prop) : NoneBefore stops bad [] := by
  intro before x after h
  exact absurd h.symm (List.append_ne_nil_of_right_ne_nil _ (List.cons_ne_nil x after))

theorem noneBefore_cons {stops bad : α → Prop} {x : α} {xs : List α} :
    NoneBefore stops bad (x :: xs) ↔ ¬ bad x ∧ (¬ stops x → NoneBefore stops bad xs) := by
  constructor
  · intro h
    refine ⟨h [] x xs rfl nofun, fun hx before y after hxs hbefore => ?_⟩
    refine h (x :: before) y after (by rw [hxs, List.cons_append]) fun z hz => ?_
    rcases List.mem_cons.mp hz with rfl | hz
    · exact hx
    · exact hbefore z hz
  · rintro ⟨hx, hxs⟩ before y after h hbefore
    cases before with
    | nil =>
      obtain ⟨rfl, -⟩ := List.cons.inj h
      exact hx
    | cons z before =>
      obtain ⟨rfl, hrest⟩ := List.cons.inj h
      have hstop : ¬ stops x := hbefore x List.mem_cons_self
      exact hxs hstop before y after hrest fun w hw => hbefore w (List.mem_cons_of_mem x hw)

/-! ### Runs -/

section

variable {f : σ → α → Except ε σ} {permitted : ε → Prop} {stops bad : α → Prop} {xs : List α} {s : σ}

/-- A run raises what is permitted only iff no element is bad, that is raises anything else, before
one stops the run. -/
theorem raises_only_iff
    (hbad : ∀ x ∈ xs, ∀ s, bad x ↔ ∃ e, f s x = .error e ∧ ¬ permitted e)
    (hstops : ∀ x ∈ xs, ∀ s, ¬ bad x → (stops x ↔ ∃ e, f s x = .error e)) :
    (∀ e, xs.foldlM f s = .error e → permitted e) ↔ NoneBefore stops bad xs := by
  induction xs generalizing s with
  | nil => exact ⟨fun _ => noneBefore_nil stops bad, fun _ e h => nomatch h⟩
  | cons x xs ih =>
    have hx := hbad x List.mem_cons_self s
    have hstop := hstops x List.mem_cons_self s
    have ih := fun s => ih (fun y hy => hbad y (List.mem_cons_of_mem x hy))
      (fun y hy => hstops y (List.mem_cons_of_mem x hy)) (s := s)
    rw [noneBefore_cons, List.foldlM_cons]
    cases hstep : f s x with
    | ok t =>
      have hgood : ¬ bad x := by
        rw [hx, hstep]
        exact fun ⟨_, h, _⟩ => nomatch h
      have hgoes : ¬ stops x := by
        rw [hstop hgood, hstep]
        exact fun ⟨_, h⟩ => nomatch h
      have hrest := ih t
      exact ⟨fun h => ⟨hgood, fun _ => hrest.mp h⟩, fun h => hrest.mpr (h.2 hgoes)⟩
    | error e =>
      constructor
      · intro h
        have hpermitted : permitted e := h e rfl
        have hgood : ¬ bad x := by
          rw [hx]
          rintro ⟨e', he', hnot⟩
          obtain rfl : e = e' := Except.error.inj (hstep.symm.trans he')
          exact hnot hpermitted
        exact ⟨hgood, fun hgoes => absurd ((hstop hgood).mpr ⟨e, hstep⟩) hgoes⟩
      · rintro ⟨hgood, -⟩ e' he'
        obtain rfl : e = e' := Except.error.inj he'
        by_contra hnot
        exact hgood (hx.mpr ⟨e, hstep, hnot⟩)

/-- A run in which no element is bad before one stops it ends early iff some element stops it. -/
theorem exists_error_iff
    (hbad : ∀ x ∈ xs, ∀ s, bad x ↔ ∃ e, f s x = .error e ∧ ¬ permitted e)
    (hstops : ∀ x ∈ xs, ∀ s, ¬ bad x → (stops x ↔ ∃ e, f s x = .error e))
    (h : NoneBefore stops bad xs) :
    (∃ e, xs.foldlM f s = .error e) ↔ ∃ x ∈ xs, stops x := by
  induction xs generalizing s with
  | nil => exact ⟨fun ⟨_, h⟩ => (nomatch h), fun ⟨_, h, _⟩ => (nomatch h)⟩
  | cons x xs ih =>
    obtain ⟨hgood, hxs⟩ := noneBefore_cons.mp h
    have hstop := hstops x List.mem_cons_self s hgood
    have ih := fun h s => ih (fun y hy => hbad y (List.mem_cons_of_mem x hy))
      (fun y hy => hstops y (List.mem_cons_of_mem x hy)) h (s := s)
    rw [List.foldlM_cons, List.exists_mem_cons_iff]
    cases hstep : f s x with
    | ok t =>
      have hgoes : ¬ stops x := by
        rw [hstop, hstep]
        exact fun ⟨_, h⟩ => nomatch h
      have hrest := ih (hxs hgoes) t
      exact ⟨fun h => .inr (hrest.mp h), fun h => hrest.mpr (h.resolve_left hgoes)⟩
    | error e => exact ⟨fun _ => .inl (hstop.mpr ⟨e, hstep⟩), fun _ => ⟨e, rfl⟩⟩

end

/-- A run whose steps return on good elements only returns iff all elements are good. -/
theorem exists_foldlM_iff {f : σ → α → Except ε σ} {good : α → Prop} {xs : List α}
    (hf : ∀ x ∈ xs, ∀ s, (∃ t, f s x = .ok t) ↔ good x) {s : σ} :
    (∃ t, xs.foldlM f s = .ok t) ↔ ∀ x ∈ xs, good x := by
  induction xs generalizing s with
  | nil => exact ⟨fun _ => nofun, fun _ => ⟨s, rfl⟩⟩
  | cons x xs ih =>
    have hx := hf x List.mem_cons_self
    have hxs := fun y hy => hf y (List.mem_cons_of_mem x hy)
    simp only [List.foldlM_cons, bind_eq_ok, List.forall_mem_cons]
    constructor
    · rintro ⟨t, s', hs', hrest⟩
      exact ⟨(hx s).mp ⟨s', hs'⟩, (ih hxs).mp ⟨t, hrest⟩⟩
    · rintro ⟨hgood, hall⟩
      obtain ⟨s', hs'⟩ := (hx s).mpr hgood
      obtain ⟨t, hrest⟩ := (ih hxs).mpr hall
      exact ⟨t, s', hs', hrest⟩

/-- A run that returns has counted what every element was due. -/
theorem foldlM_count {f : σ → α → Except ε σ} {count : σ → Nat} {due : α → Nat}
    (hf : ∀ s x t, f s x = .ok t → count t = count s + due x) {xs : List α} {s t : σ}
    (h : xs.foldlM f s = .ok t) : count t = count s + (xs.map due).sum := by
  induction xs generalizing s with
  | nil =>
    rw [List.foldlM_nil, pure_eq_ok] at h
    simp [h]
  | cons x xs ih =>
    rw [List.foldlM_cons] at h
    obtain ⟨s', hs', h⟩ := bind_eq_ok.mp h
    have hstep := hf s x s' hs'
    have hrest := ih h
    rw [List.map_cons, List.sum_cons]
    omega

end Lnpl.Lib

/-!
## Loops that stop late

A loop counts its rounds from `a` on.  It stops after the last round it may make, or after the first
one that is `late`; once a round is late, so are all later ones.  Two such loops stop after the same
round for the same reason iff the same rounds are late for both.
-/

namespace Lnpl.Lib

/-- The round that a loop stops after, and whether it was late; `left` rounds may follow. -/
def firstStop (late : Nat → Bool) : Nat → Nat → Nat × Bool
  | 0, a => (a, false)
  | left + 1, a => if late a then (a, true) else firstStop late left (a + 1)

/-- What is late stays late. -/
def StaysLate (late : Nat → Bool) : Prop := ∀ a, late a = true → late (a + 1) = true

variable {late late' : Nat → Bool}

variable {a left : Nat}

theorem StaysLate.le (h : StaysLate late) {b : Nat} (hab : a ≤ b) (ha : late a = true) :
    late b = true := by
  induction hab with
  | refl => exact ha
  | step _ ih => exact h _ ih

theorem le_firstStop (left : Nat) : ∀ a, a ≤ (firstStop late left a).1 := by
  induction left with
  | zero => exact fun a => Nat.le_refl a
  | succ left ih =>
    intro a
    unfold firstStop
    cases late a with
    | true => exact Nat.le_refl a
    | false => exact Nat.le_trans (Nat.le_succ a) (ih (a + 1))

theorem firstStop_of_late (h : late a = true) : firstStop late (left + 1) a = (a, true) :=
  if_pos h

theorem firstStop_of_not_late (h : late a = false) :
    firstStop late (left + 1) a = firstStop late left (a + 1) :=
  if_neg (by rw [h]; exact Bool.false_ne_true)

/-- The round that is late for one loop only is passed by the other. -/
theorem firstStop_ne (h : late a = true) (h' : late' a = false) :
    (firstStop late (left + 1) a).1 ≠ (firstStop late' (left + 1) a).1 := by
  rw [firstStop_of_late h, firstStop_of_not_late h']
  have hle : a + 1 ≤ (firstStop late' left (a + 1)).1 := le_firstStop left (a + 1)
  omega

/-- **Two loops** stop after the same round, and for the same reason, iff the same rounds are
late. -/
theorem firstStop_eq_iff (hlate : StaysLate late) (hlate' : StaysLate late') (left : Nat) :
    ∀ a, firstStop late left a = firstStop late' left a ↔
      ∀ b, a ≤ b → b < a + left → late b = late' b := by
  induction left with
  | zero =>
    intro a
    refine iff_of_true rfl ?_
    intro b hab hb
    omega
  | succ left ih =>
    intro a
    cases h : late a with
    | true =>
      cases h' : late' a with
      | true =>
        rw [firstStop_of_late h, firstStop_of_late h']
        refine iff_of_true rfl ?_
        intro b hab _
        rw [hlate.le hab h, hlate'.le hab h']
      | false =>
        refine iff_of_false (fun heq => firstStop_ne h h' (congrArg Prod.fst heq)) ?_
        intro hall
        have hsame := hall a (Nat.le_refl a) (by omega)
        rw [h, h'] at hsame
        cases hsame
    | false =>
      cases h' : late' a with
      | true =>
        refine iff_of_false (fun heq => firstStop_ne h' h (congrArg Prod.fst heq).symm) ?_
        intro hall
        have hsame := hall a (Nat.le_refl a) (by omega)
        rw [h, h'] at hsame
        cases hsame
      | false =>
        rw [firstStop_of_not_late h, firstStop_of_not_late h', ih (a + 1)]
        constructor
        · intro hall b hab hb
          by_cases hb' : b = a
          · rw [hb', h, h']
          · exact hall b (by omega) (by omega)
        · intro hall b hab hb
          exact hall b (by omega) (by omega)

end Lnpl.Lib
