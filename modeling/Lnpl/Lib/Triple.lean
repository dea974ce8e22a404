/-!
# Pre- and postconditions of programs with state and exceptions

`Triple P m Q E`: started where `P` holds, the program `m` ends with a result and a state in `Q`,
or with an exception and a state in `E`.  A program keeps its state when it raises, so an
exceptional end has a postcondition of its own.  `Keeps I m` is the case of an invariant.
-/

namespace Lnpl.Lib

variable {ε σ τ α β : Type}

/-- A program has ended in `Q`, or with an exception in `E`. -/
def Ends (Q : α → σ → Prop) (E : ε → σ → Prop) : EStateM.Result ε σ α → Prop
  | .ok a t => Q a t
  | .error e t => E e t

theorem Ends.mono {Q Q' : α → σ → Prop} {E E' : ε → σ → Prop} {r : EStateM.Result ε σ α}
    (h : Ends Q E r) (hQ : ∀ a s, Q a s → Q' a s) (hE : ∀ e s, E e s → E' e s) : Ends Q' E' r := by
  cases r with
  | ok a t => exact hQ a t h
  | error e t => exact hE e t h

/-- Pre- and postconditions of a program. -/
def Triple (P : σ → Prop) (m : EStateM ε σ α) (Q : α → σ → Prop) (E : ε → σ → Prop) : Prop :=
  ∀ s, P s → Ends Q E (m s)

/-- The invariant `I` holds at every end of `m`. -/
def Keeps (I : σ → Prop) (m : EStateM ε σ α) : Prop := Triple I m (fun _ => I) fun _ => I

/-- The state a program has left, whether it returned or raised. -/
def EStateM.lastState : EStateM.Result ε σ α → σ
  | .ok _ t => t
  | .error _ t => t

/-- The program without its answer. -/
def EStateM.final (m : EStateM ε σ α) (s : σ) : σ := lastState (m s)

/-- A program on one component of a state, given by its reader and its writer. -/
def EStateM.zoom (get : τ → σ) (set : σ → τ → τ) (m : EStateM ε σ α) : EStateM ε τ α := fun t =>
  match m (get t) with
  | .ok a s => .ok a (set s t)
  | .error e s => .error e (set s t)

/-- An answer without a state. -/
def EStateM.ofExcept : Except ε α → EStateM ε σ α
  | .ok a => pure a
  | .error e => throw e

/-! ### Executing a program from a given state -/

namespace EStateM

variable {m : EStateM ε σ α} {f : α → EStateM ε σ β} {h : ε → EStateM ε σ α} {s t : σ} {a : α} {e : ε}

theorem bind_ok (hm : m s = .ok a t) : (m >>= f) s = f a t := by
  show EStateM.bind m f s = _
  rw [EStateM.bind, hm]

theorem bind_error (hm : m s = .error e t) : (m >>= f) s = .error e t := by
  show EStateM.bind m f s = _
  rw [EStateM.bind, hm]

theorem tryCatch_ok (hm : m s = .ok a t) : tryCatch m h s = .ok a t := by
  show EStateM.tryCatch m h s = _
  delta EStateM.tryCatch
  rw [hm]

theorem tryCatch_error (hm : m s = .error e t) : tryCatch m h s = h e t := by
  show EStateM.tryCatch m h s = _
  delta EStateM.tryCatch
  rw [hm]
  rfl

theorem final_ok (hm : m s = .ok a t) : final m s = t := by
  rw [final, hm, lastState]

theorem final_error (hm : m s = .error e t) : final m s = t := by
  rw [final, hm, lastState]

/-- The last state of a program is that of its second part, once the first has returned. -/
theorem final_bind_ok (hm : m s = .ok a t) : final (m >>= f) s = final (f a) t := by
  rw [final, bind_ok hm, final]

theorem final_bind_error (hm : m s = .error e t) : final (m >>= f) s = t :=
  final_error (bind_error hm)

/-- A program that does not return is not followed by another. -/
theorem bind_of_raises (hm : ∀ a t, m s ≠ .ok a t) : final (m >>= f) s = final m s := by
  cases h : m s with
  | ok a t => exact absurd h (hm a t)
  | error e t => rw [final_bind_error h, final_error h]

variable {set : σ → τ → τ} {u : τ}

theorem zoom_ok {get : τ → σ} (hm : m (get u) = .ok a t) : zoom get set m u = .ok a (set t u) := by
  rw [zoom, hm]

theorem zoom_error {get : τ → σ} (hm : m (get u) = .error e t) :
    zoom get set m u = .error e (set t u) := by
  rw [zoom, hm]

end EStateM

namespace Triple

variable {P P' : σ → Prop} {Q Q' : α → σ → Prop} {E E' : ε → σ → Prop}

theorem mono {m : EStateM ε σ α} (h : Triple P m Q E) (hP : ∀ s, P' s → P s)
    (hQ : ∀ a s, Q a s → Q' a s) (hE : ∀ e s, E e s → E' e s) : Triple P' m Q' E' :=
  fun s hs => (h s (hP s hs)).mono hQ hE

/-- Where both postconditions agree, they hold of the last state. -/
theorem final {m : EStateM ε σ α} {I : σ → Prop} (h : Triple P m (fun _ => I) fun _ => I) {s : σ}
    (hs : P s) : I (EStateM.final m s) := by
  have hm := h s hs
  unfold EStateM.final
  revert hm
  cases m s with
  | ok a t => exact id
  | error e t => exact id

theorem pure {a : α} (h : ∀ s, P s → Q a s) : Triple P (pure a : EStateM ε σ α) Q E := h

theorem throw {e : ε} (h : ∀ s, P s → E e s) : Triple P (throw e : EStateM ε σ α) Q E := h

theorem get {Q : σ → σ → Prop} (h : ∀ s, P s → Q s s) :
    Triple P (get : EStateM ε σ σ) Q E := h

theorem modify {Q : Unit → σ → Prop} {f : σ → σ} (h : ∀ s, P s → Q () (f s)) :
    Triple P (modify f : EStateM ε σ Unit) Q E := h

theorem ofExcept {x : Except ε α} (hok : ∀ a, x = .ok a → ∀ s, P s → Q a s)
    (herr : ∀ e, x = .error e → ∀ s, P s → E e s) :
    Triple P (EStateM.ofExcept x : EStateM ε σ α) Q E := by
  cases x with
  | ok a => exact hok a rfl
  | error e => exact herr e rfl

theorem bind {R : β → σ → Prop} {m : EStateM ε σ α} {f : α → EStateM ε σ β}
    (hm : Triple P m Q E) (hf : ∀ a, Triple (Q a) (f a) R E) : Triple P (m >>= f) R E := by
  intro s hs
  have h := hm s hs
  show Ends R E (EStateM.bind m f s)
  unfold EStateM.bind
  revert h
  cases m s with
  | ok a t => exact hf a t
  | error e t => exact id

theorem tryCatch {m : EStateM ε σ α} {h : ε → EStateM ε σ α} (hm : Triple P m Q E)
    (hh : ∀ e, Triple (E e) (h e) Q E') : Triple P (tryCatch m h) Q E' := by
  intro s hs
  have hms := hm s hs
  show Ends Q E' (EStateM.tryCatch m h s)
  delta EStateM.tryCatch
  revert hms
  cases m s with
  | ok a t => exact id
  | error e t => exact hh e t

/-- A precondition that does not depend on the state. -/
theorem assume {φ : Prop} {m : EStateM ε σ α} (h : φ → Triple P m Q E) :
    Triple (fun s => φ ∧ P s) m Q E := fun s hs => h hs.1 s hs.2

/-- Two triples of one program hold together. -/
theorem and {m : EStateM ε σ α} (h : Triple P m Q E) (h' : Triple P' m Q' E') :
    Triple (fun s => P s ∧ P' s) m (fun a s => Q a s ∧ Q' a s) fun e s => E e s ∧ E' e s := by
  intro s hs
  have hm := h s hs.1
  have hm' := h' s hs.2
  revert hm hm'
  cases m s with
  | ok a t => exact fun hm hm' => ⟨hm, hm'⟩
  | error e t => exact fun hm hm' => ⟨hm, hm'⟩

/-- Every program ends somehow. -/
theorem any (m : EStateM ε σ α) : Triple P m (fun _ _ => True) fun _ _ => True := by
  intro s _
  cases m s <;> trivial

variable {c : Prop} {k : PUnit → EStateM ε σ α}

theorem ite [Decidable c] {m n : EStateM ε σ α} (hm : c → Triple P m Q E)
    (hn : ¬c → Triple P n Q E) : Triple P (if c then m else n) Q E := by
  by_cases h : c
  · rw [if_pos h]
    exact hm h
  · rw [if_neg h]
    exact hn h

/-- A check that raises, before the rest of a program. -/
theorem check [Decidable c] {e : ε} (he : c → ∀ s, P s → E e s) (hk : ¬c → Triple P (k ⟨⟩) Q E) :
    Triple P (if c then throwThe ε e >>= k else k ⟨⟩) Q E := by
  refine ite (fun hc => ?_) hk
  exact bind (Q := fun _ _ => False) (throw (he hc)) fun _ _ => False.elim

/-- A program that is executed on a condition, before the rest of another. -/
theorem when [Decidable c] {m : EStateM ε σ PUnit} {R : σ → Prop}
    (hm : c → Triple P m (fun _ => R) E) (hno : ¬c → ∀ s, P s → R s)
    (hk : ∀ a, Triple R (k a) Q E) : Triple P (if c then m >>= k else k ⟨⟩) Q E :=
  ite (fun hc => bind (hm hc) hk) fun hc => (hk ⟨⟩).mono (hno hc) (fun _ _ => id) fun _ _ => id

/-- A program that a postcondition says never returns. -/
theorem ne_ok {m : EStateM ε σ α} (h : Triple P m (fun _ _ => False) E) {s : σ} (hs : P s)
    (a : α) (t : σ) : m s ≠ .ok a t := by
  intro hm
  have := h s hs
  rw [hm] at this
  exact this

/-- A program on a component, from how it ends there. -/
theorem zoom_ends {P : τ → Prop} {Q : α → τ → Prop} {E : ε → τ → Prop} {get : τ → σ}
    {set : σ → τ → τ} {m : EStateM ε σ α} (h : ∀ t, P t →
      Ends (fun a s => Q a (set s t)) (fun e s => E e (set s t)) (m (get t))) :
    Triple P (EStateM.zoom get set m) Q E := by
  intro t ht
  have hm := h t ht
  unfold EStateM.zoom
  revert hm
  cases m (get t) with
  | ok a s => exact id
  | error e s => exact id

/-- A program on a component, from what it does to the component. -/
theorem zoom {P : τ → Prop} {Q : α → τ → Prop} {E : ε → τ → Prop} {get : τ → σ} {set : σ → τ → τ}
    {m : EStateM ε σ α} (h : ∀ t, P t → Triple (fun s => s = get t) m
      (fun a s => Q a (set s t)) fun e s => E e (set s t)) :
    Triple P (EStateM.zoom get set m) Q E :=
  zoom_ends fun t ht => h t ht (get t) rfl

/-- The loop rule: an invariant of every round is an invariant of the loop. -/
theorem forM {I : σ → Prop} {l : List β} {f : β → EStateM ε σ PUnit}
    (h : ∀ b ∈ l, Triple I (f b) (fun _ => I) E) : Triple I (l.forM f) (fun _ => I) E := by
  induction l with
  | nil => exact pure fun _ hs => hs
  | cons b l ih =>
    show Triple I (f b >>= fun _ => l.forM f) _ _
    exact bind (h b List.mem_cons_self) fun _ => ih fun c hc => h c (List.mem_cons_of_mem b hc)

end Triple

/-! ### Exceptions -/

/-- An error of the computation is in `E`. -/
def Errs (E : ε → Prop) (x : Except ε α) : Prop := ∀ e, x = .error e → E e

namespace Errs

variable {E : ε → Prop}

theorem ok (a : α) : Errs E (.ok a) := nofun

theorem error {e : ε} (h : E e) : Errs E (.error e : Except ε α) := by
  intro e' he
  rw [← Except.error.inj he]
  exact h

variable {x : Except ε α}

theorem bind {f : α → Except ε β} (hx : Errs E x) (hf : ∀ a, Errs E (f a)) : Errs E (x >>= f) := by
  cases x with
  | ok a => exact hf a
  | error e => exact error (hx e rfl)

theorem map (hx : Errs E x) (f : α → β) : Errs E (x.map f) := by
  cases x with
  | ok a => exact ok _
  | error e => exact error (hx e rfl)

theorem ite {c : Prop} [Decidable c] {y : Except ε α} (hx : Errs E x) (hy : Errs E y) :
    Errs E (if c then x else y) := by
  by_cases h : c
  · rw [if_pos h]
    exact hx
  · rw [if_neg h]
    exact hy

theorem foldlM {f : β → α → Except ε β} (hf : ∀ b a, Errs E (f b a)) (l : List α) (b : β) :
    Errs E (l.foldlM f b) := by
  induction l generalizing b with
  | nil => exact ok b
  | cons a l ih =>
    rw [List.foldlM_cons]
    exact bind (hf b a) ih

end Errs

/-- Whatever the program raises is in `E`. -/
abbrev Raises (E : ε → Prop) (m : EStateM ε σ α) : Prop :=
  Triple (fun _ => True) m (fun _ _ => True) fun e _ => E e

namespace Raises

variable {E E' : ε → Prop}

theorem pure (a : α) : Raises E (pure a : EStateM ε σ α) := fun _ _ => trivial

theorem throw {e : ε} (h : E e) : Raises E (throw e : EStateM ε σ α) := fun _ _ => h

theorem get : Raises E (get : EStateM ε σ σ) := fun _ _ => trivial

theorem modify (f : σ → σ) : Raises E (modify f : EStateM ε σ Unit) := fun _ _ => trivial

theorem ofExcept {x : Except ε α} (h : Errs E x) :
    Raises E (EStateM.ofExcept x : EStateM ε σ α) :=
  Triple.ofExcept (fun _ _ _ _ => trivial) fun e he _ _ => h e he

theorem mono {m : EStateM ε σ α} (h : Raises E m) (hE : ∀ e, E e → E' e) : Raises E' m :=
  Triple.mono h (fun _ => id) (fun _ _ => id) fun e _ => hE e

theorem bind {m : EStateM ε σ α} {f : α → EStateM ε σ β} (hm : Raises E m)
    (hf : ∀ a, Raises E (f a)) : Raises E (m >>= f) :=
  Triple.bind hm hf

theorem tryCatch {m : EStateM ε σ α} {h : ε → EStateM ε σ α} (hm : Raises E m)
    (hh : ∀ e, E e → Raises E' (h e)) : Raises E' (tryCatch m h) :=
  Triple.tryCatch hm fun e => fun s he => hh e he s trivial

variable {c : Prop} {k : PUnit → EStateM ε σ α}

theorem ite [Decidable c] {m n : EStateM ε σ α} (hm : Raises E m) (hn : Raises E n) :
    Raises E (if c then m else n) :=
  Triple.ite (fun _ => hm) fun _ => hn

theorem check [Decidable c] {e : ε} (he : E e) (hk : Raises E (k ⟨⟩)) :
    Raises E (if c then throwThe ε e >>= k else k ⟨⟩) :=
  Triple.check (fun _ _ _ => he) fun _ => hk

theorem when [Decidable c] {m : EStateM ε σ PUnit} (hm : Raises E m) (hk : ∀ a, Raises E (k a)) :
    Raises E (if c then m >>= k else k ⟨⟩) :=
  Triple.when (fun _ => hm) (fun _ _ => id) hk

/-- A program on a component. -/
theorem zoom {get : τ → σ} {set : σ → τ → τ} {m : EStateM ε σ α} (h : Raises E m) :
    Raises E (EStateM.zoom get set m) :=
  Triple.zoom fun _ _ => Triple.mono h (fun _ _ => trivial) (fun _ _ => id) fun _ _ => id

end Raises

/-! ### Invariants -/

namespace Keeps

variable {I : σ → Prop}

theorem pure (a : α) : Keeps I (pure a : EStateM ε σ α) := fun _ => id

theorem throw (e : ε) : Keeps I (throw e : EStateM ε σ α) := fun _ => id

theorem get : Keeps I (get : EStateM ε σ σ) := fun _ => id

theorem modify {f : σ → σ} (h : ∀ s, I s → I (f s)) : Keeps I (modify f : EStateM ε σ Unit) := h

theorem ofExcept (x : Except ε α) : Keeps I (EStateM.ofExcept x : EStateM ε σ α) :=
  Triple.ofExcept (fun _ _ _ => id) fun _ _ _ => id

theorem bind {m : EStateM ε σ α} {f : α → EStateM ε σ β} (hm : Keeps I m)
    (hf : ∀ a, Keeps I (f a)) : Keeps I (m >>= f) :=
  Triple.bind hm hf

theorem tryCatch {m : EStateM ε σ α} {h : ε → EStateM ε σ α} (hm : Keeps I m)
    (hh : ∀ e, Keeps I (h e)) : Keeps I (tryCatch m h) :=
  Triple.tryCatch hm hh

variable {c : Prop}

theorem ite [Decidable c] {m n : EStateM ε σ α} (hm : Keeps I m) (hn : Keeps I n) :
    Keeps I (if c then m else n) :=
  Triple.ite (fun _ => hm) fun _ => hn

theorem check [Decidable c] {e : ε} {k : PUnit → EStateM ε σ α} (hk : Keeps I (k ⟨⟩)) :
    Keeps I (if c then throwThe ε e >>= k else k ⟨⟩) :=
  Triple.check (fun _ _ => id) fun _ => hk

theorem forM {l : List β} {f : β → EStateM ε σ PUnit} (h : ∀ b ∈ l, Keeps I (f b)) :
    Keeps I (l.forM f) :=
  Triple.forM h

/-- A program on a component, where every value of the component is as good as another. -/
theorem zoom {get : τ → σ} {set : σ → τ → τ} {J : τ → Prop} (h : ∀ t s, J t → J (set s t))
    (m : EStateM ε σ α) : Keeps J (EStateM.zoom get set m) :=
  Triple.zoom_ends fun t ht => by
    cases m (get t) with
    | ok a s => exact h t s ht
    | error e s => exact h t s ht

/-- An invariant, where what an exception leaves does not matter. -/
theorem returns {m : EStateM ε σ α} (h : Keeps I m) : Triple I m (fun _ => I) fun _ _ => True :=
  h.mono (fun _ => id) (fun _ _ => id) fun _ _ _ => trivial

/-- An invariant holds of the last state. -/
theorem final {m : EStateM ε σ α} (h : Keeps I m) {s : σ} (hs : I s) : I (EStateM.final m s) :=
  Triple.final h hs

end Keeps

end Lnpl.Lib
