import Lnpl.Lib.Triple

/-!
# Coroutines

A `Coro σ ε α` is a program of a thread on a shared state `σ`: a tree of actions that ends with a
result or an exception, and in which `pause` marks the points where other threads may run.  What
lies between two pauses is executed in one slice (`slice`); executed alone, a coroutine is an
ordinary program with state and exceptions (`run`).

`Spec I Q E c` says that every action of `c` keeps the invariant `I`, and that `c` ends with a
result in `Q` or an exception in `E`, whatever the other threads do to the state between two
slices, as long as they keep `I` too.  It is proved along the structure of the program
(`Spec.bind`, `Spec.tryCatch`, `Spec.lift`), and holds of `c` alone (`Spec.run`) and of each of its
slices (`Spec.slice`).
-/

namespace Lnpl.Lib

/-- A program of one thread on the shared state `σ`. -/
inductive Coro (σ ε α : Type) where
  | ret (a : α)
  | fail (e : ε)
  | act (upd : σ → σ) (next : σ → Coro σ ε α)
  | pause (rest : Coro σ ε α)

namespace Coro

variable {σ ε α β : Type}

/-- A program executed in one action. -/
def lift (m : EStateM ε σ α) : Coro σ ε α :=
  .act (EStateM.final m) fun s =>
    match m s with
    | .ok a _ => .ret a
    | .error e _ => .fail e

protected def bind : Coro σ ε α → (α → Coro σ ε β) → Coro σ ε β
  | .ret a, f => f a
  | .fail e, _ => .fail e
  | .act upd next, f => .act upd fun s => (next s).bind f
  | .pause rest, f => .pause (rest.bind f)

protected def tryCatch : Coro σ ε α → (ε → Coro σ ε α) → Coro σ ε α
  | .ret a, _ => .ret a
  | .fail e, h => h e
  | .act upd next, h => .act upd fun s => (next s).tryCatch h
  | .pause rest, h => .pause (rest.tryCatch h)

instance : Monad (Coro σ ε) where
  pure := .ret
  bind := Coro.bind

/-- The coroutine executed alone. -/
def run : Coro σ ε α → EStateM ε σ α
  | .ret a => pure a
  | .fail e => throw e
  | .act upd next => fun s => (next s).run (upd s)
  | .pause rest => rest.run

/-- One slice: the actions up to the next pause, and the rest of the program. -/
def slice : Coro σ ε α → σ → σ × Coro σ ε α
  | .ret a, s => (s, .ret a)
  | .fail e, s => (s, .fail e)
  | .act upd next, s => (next s).slice (upd s)
  | .pause rest, s => (s, rest)

theorem run_bind (c : Coro σ ε α) (f : α → Coro σ ε β) :
    (c >>= f).run = c.run >>= fun a => (f a).run := by
  induction c with
  | ret a => rfl
  | fail e => rfl
  | act upd next ih => exact funext fun s => congrFun (ih s) (upd s)
  | pause rest ih => exact ih

theorem run_tryCatch (c : Coro σ ε α) (h : ε → Coro σ ε α) :
    (c.tryCatch h).run = tryCatch c.run fun e => (h e).run := by
  induction c with
  | ret a => rfl
  | fail e => rfl
  | act upd next ih => exact funext fun s => congrFun (ih s) (upd s)
  | pause rest ih => exact ih

theorem run_lift (m : EStateM ε σ α) : (lift m).run = m := by
  funext s
  show (match m s with | .ok a _ => .ret a | .error e _ => .fail e : Coro σ ε α).run
    (EStateM.final m s) = m s
  rw [EStateM.final]
  cases m s with
  | ok a t => rfl
  | error e t => rfl

/-! ### Specifications -/

/-- Actions that keep `I`, a result in `Q` or an exception in `E`. -/
def Spec (I : σ → Prop) (Q : α → Prop) (E : ε → Prop) : Coro σ ε α → Prop
  | .ret a => Q a
  | .fail e => E e
  | .act upd next => ∀ s, I s → I (upd s) ∧ Spec I Q E (next s)
  | .pause rest => Spec I Q E rest

variable {I : σ → Prop} {Q : α → Prop} {Q' : β → Prop} {E E' : ε → Prop}

theorem Spec.lift {m : EStateM ε σ α}
    (h : Triple I m (fun a t => I t ∧ Q a) fun e t => I t ∧ E e) : Spec I Q E (lift m) := by
  intro s hs
  have hm := h s hs
  show I (EStateM.final m s) ∧
    Spec I Q E (match m s with | .ok a _ => .ret a | .error e _ => .fail e)
  unfold EStateM.final
  revert hm
  cases m s with
  | ok a t => exact id
  | error e t => exact id

variable {f : α → Coro σ ε β}

theorem Spec.bind (hf : ∀ a, Q a → Spec I Q' E (f a)) :
    ∀ {c : Coro σ ε α}, Spec I Q E c → Spec I Q' E (c >>= f)
  | .ret a, h => hf a h
  | .fail _, h => h
  | .act _ _, h => fun s hs => ⟨(h s hs).1, Spec.bind hf (h s hs).2⟩
  | .pause rest, h => Spec.bind (c := rest) hf h

theorem Spec.tryCatch {h : ε → Coro σ ε α} (hh : ∀ e, E e → Spec I Q E' (h e)) :
    ∀ {c : Coro σ ε α}, Spec I Q E c → Spec I Q E' (c.tryCatch h)
  | .ret _, hc => hc
  | .fail e, hc => hh e hc
  | .act _ _, hc => fun s hs => ⟨(hc s hs).1, Spec.tryCatch hh (hc s hs).2⟩
  | .pause rest, hc => Spec.tryCatch (c := rest) hh hc

/-- Nothing is asked of the coroutine. -/
theorem Spec.any : ∀ c : Coro σ ε α, Spec (fun _ => True) (fun _ => True) (fun _ => True) c
  | .ret _ => trivial
  | .fail _ => trivial
  | .act _ next => fun s _ => ⟨trivial, Spec.any (next s)⟩
  | .pause rest => Spec.any rest

/-- A coroutine executed alone keeps the invariant. -/
theorem Spec.run : ∀ {c : Coro σ ε α}, Spec I Q E c →
    Triple I c.run (fun a t => I t ∧ Q a) fun e t => I t ∧ E e
  | .ret _, h => fun _ hs => ⟨hs, h⟩
  | .fail _, h => fun _ hs => ⟨hs, h⟩
  | .act upd _, h => fun s hs => Spec.run (h s hs).2 (upd s) (h s hs).1
  | .pause rest, h => Spec.run (c := rest) h

/-- A slice keeps the invariant and leaves a program that meets the specification. -/
theorem Spec.slice : ∀ {c : Coro σ ε α}, Spec I Q E c → ∀ s, I s →
    I (c.slice s).1 ∧ Spec I Q E (c.slice s).2
  | .ret _, h, _, hs => ⟨hs, h⟩
  | .fail _, h, _, hs => ⟨hs, h⟩
  | .act upd _, h, s, hs => Spec.slice (h s hs).2 (upd s) (h s hs).1
  | .pause _, h, _, hs => ⟨hs, h⟩

/-! ### Exceptions -/

/-- Whatever the coroutine raises is in `E`. -/
abbrev Raises (E : ε → Prop) (c : Coro σ ε α) : Prop := Spec (fun _ => True) (fun _ => True) E c

theorem Raises.lift {m : EStateM ε σ α} (h : Lib.Raises E m) : Raises E (lift m) :=
  Spec.lift (Triple.mono h (fun _ => id) (fun _ _ _ => ⟨trivial, trivial⟩) fun _ _ he =>
    ⟨trivial, he⟩)

theorem Raises.bind {c : Coro σ ε α} (hc : Raises E c) (hf : ∀ a, Raises E (f a)) :
    Raises E (c >>= f) :=
  Spec.bind (fun a _ => hf a) hc

/-- The loop rule. -/
theorem Raises.forM {l : List β} {f : β → Coro σ ε PUnit} (h : ∀ b ∈ l, Raises E (f b)) :
    Raises E (l.forM f) := by
  induction l with
  | nil => exact trivial
  | cons b l ih =>
    show Raises E (f b >>= fun _ => l.forM f)
    exact bind (h b List.mem_cons_self) fun _ => ih fun c hc => h c (List.mem_cons_of_mem b hc)

/-! ### Invariants -/

/-- Every action keeps the invariant, however the coroutine ends. -/
abbrev Keeps (I : σ → Prop) (c : Coro σ ε α) : Prop := Spec I (fun _ => True) (fun _ => True) c

namespace Keeps

theorem pure (a : α) : Keeps I (pure a : Coro σ ε α) := trivial

theorem fail (e : ε) : Keeps I (.fail e : Coro σ ε α) := trivial

variable {c : Coro σ ε α}

theorem pause (h : Keeps I c) : Keeps I (.pause c) := h

theorem lift {m : EStateM ε σ α} (h : Lib.Keeps I m) : Keeps I (lift m) :=
  Spec.lift (h.mono (fun _ => id) (fun _ _ ht => ⟨ht, trivial⟩) fun _ _ ht => ⟨ht, trivial⟩)

theorem bind {f : α → Coro σ ε β} (hc : Keeps I c) (hf : ∀ a, Keeps I (f a)) : Keeps I (c >>= f) :=
  Spec.bind (fun a _ => hf a) hc

theorem tryCatch {h : ε → Coro σ ε α} (hc : Keeps I c) (hh : ∀ e, Keeps I (h e)) :
    Keeps I (c.tryCatch h) :=
  Spec.tryCatch (fun e _ => hh e) hc

theorem ite {c : Prop} [Decidable c] {p q : Coro σ ε α} (hp : Keeps I p) (hq : Keeps I q) :
    Keeps I (if c then p else q) := by
  by_cases h : c
  · rw [if_pos h]
    exact hp
  · rw [if_neg h]
    exact hq

/-- The loop rule. -/
theorem forM {l : List β} {f : β → Coro σ ε PUnit} (h : ∀ b ∈ l, Keeps I (f b)) :
    Keeps I (l.forM f) := by
  induction l with
  | nil => exact pure _
  | cons b l ih =>
    show Keeps I (f b >>= fun _ => l.forM f)
    exact bind (h b List.mem_cons_self) fun _ => ih fun c hc => h c (List.mem_cons_of_mem b hc)

/-- A coroutine executed alone keeps the invariant. -/
theorem run (h : Keeps I c) : Lib.Keeps I c.run :=
  (Spec.run h).mono (fun _ => id) (fun _ _ => And.left) fun _ _ => And.left

end Keeps

end Coro

end Lnpl.Lib

/-!
## Programs that keep notes

A program may be executed beside a copy of itself that also notes what it sees.

* `Lockstep R c c'` relates two coroutines that take the same actions and pauses and end with
  related results, so that each schedule executes them alike (`Lockstep.slice`, `Lockstep.run`).
* `Notes I n m` relates a program `n` on a state with a list of notes to the program `m` that takes
  none: both end alike, and every note `n` has added keeps `I`.
-/

namespace Lnpl.Lib

/-! ### Coroutines in lockstep -/

namespace Coro

variable {σ ε α β γ δ : Type}

/-- The same actions and pauses, and related results. -/
inductive Lockstep (R : α → β → Prop) : Coro σ ε α → Coro σ ε β → Prop
  | ret {a : α} {b : β} (h : R a b) : Lockstep R (.ret a) (.ret b)
  | fail (e : ε) : Lockstep R (.fail e) (.fail e)
  | act {upd : σ → σ} {next : σ → Coro σ ε α} {next' : σ → Coro σ ε β}
      (h : ∀ s, Lockstep R (next s) (next' s)) : Lockstep R (.act upd next) (.act upd next')
  | pause {c : Coro σ ε α} {c' : Coro σ ε β} (h : Lockstep R c c') :
      Lockstep R (.pause c) (.pause c')

/-- What is left of a coroutine that has been executed to its end. -/
def completed (c : Coro σ ε α) (s : σ) : Coro σ ε α :=
  match c.run s with
  | .ok a _ => .ret a
  | .error e _ => .fail e

namespace Lockstep

variable {R : α → β → Prop} {R' : γ → δ → Prop}

variable {c : Coro σ ε α} {c' : Coro σ ε β}

theorem bind {f : α → Coro σ ε γ} {g : β → Coro σ ε δ} (hf : ∀ a b, R a b → Lockstep R' (f a) (g b))
    (h : Lockstep R c c') : Lockstep R' (c >>= f) (c' >>= g) := by
  induction h with
  | ret h => exact hf _ _ h
  | fail e => exact .fail e
  | act _ ih => exact .act ih
  | pause _ ih => exact .pause ih

theorem act_of_eq {upd upd' : σ → σ} {next : σ → Coro σ ε α} {next' : σ → Coro σ ε β}
    (hupd : ∀ s, upd s = upd' s) (h : ∀ s, Lockstep R (next s) (next' s)) :
    Lockstep R (.act upd next) (.act upd' next') := by
  rw [← funext hupd]
  exact .act h

/-- A coroutine that returns its result with something known. -/
theorem bind_ret {S : γ → α → Prop} {f : α → γ} (h : ∀ a, S (f a) a) (c : Coro σ ε α) :
    Lockstep S (c >>= fun a => .ret (f a)) c := by
  induction c with
  | ret a => exact .ret (h a)
  | fail e => exact .fail e
  | act upd next ih => exact .act ih
  | pause c ih => exact .pause ih

/-- Executed alone, they leave the same state and related results. -/
theorem run (h : Lockstep R c c') (s : σ) :
    (∃ a b t, R a b ∧ c.run s = .ok a t ∧ c'.run s = .ok b t) ∨
      ∃ e t, c.run s = .error e t ∧ c'.run s = .error e t := by
  induction h generalizing s with
  | ret h => exact .inl ⟨_, _, s, h, rfl, rfl⟩
  | fail e => exact .inr ⟨e, s, rfl, rfl⟩
  | @act upd _ _ _ ih => exact ih s (upd s)
  | pause _ ih => exact ih s

/-- A slice leaves the same state, and the rests in lockstep. -/
theorem slice (h : Lockstep R c c') (s : σ) :
    (c.slice s).1 = (c'.slice s).1 ∧ Lockstep R (c.slice s).2 (c'.slice s).2 := by
  induction h generalizing s with
  | ret h => exact ⟨rfl, .ret h⟩
  | fail e => exact ⟨rfl, .fail e⟩
  | @act upd _ _ _ ih => exact ih s (upd s)
  | pause h _ => exact ⟨rfl, h⟩

end Lockstep

end Coro

/-! ### Programs with notes -/

variable {σ ω ε α β : Type}

/-- A program, and what is noted of the state it starts from. -/
def EStateM.noting (f : σ → List ω) (m : EStateM ε σ α) : EStateM ε (σ × List ω) α := fun p =>
  match m p.1 with
  | .ok a t => .ok a (t, p.2 ++ f p.1)
  | .error e t => .error e (t, p.2 ++ f p.1)

/-- A program of which nothing is noted. -/
def EStateM.unnoted (m : EStateM ε σ α) : EStateM ε (σ × List ω) α := EStateM.noting (fun _ => []) m

/-- Both have ended alike, and the notes keep `I`. -/
def NotedEnd (I : σ × List ω → Prop) : EStateM.Result ε (σ × List ω) α → EStateM.Result ε σ α → Prop
  | .ok a p, .ok b t => a = b ∧ p.1 = t ∧ I p
  | .error e p, .error e' t => e = e' ∧ p.1 = t ∧ I p
  | _, _ => False

def Notes (I : σ × List ω → Prop) (n : EStateM ε (σ × List ω) α) (m : EStateM ε σ α) : Prop :=
  ∀ p, I p → NotedEnd I (n p) (m p.1)

namespace Notes

variable {I : σ × List ω → Prop}

variable {m : EStateM ε σ α} {n : EStateM ε (σ × List ω) α}

theorem noting {f : σ → List ω} (h : ∀ s notes, I (s, notes) → Ends (fun _ t => I (t, notes ++ f s))
      (fun _ t => I (t, notes ++ f s)) (m s)) : Notes I (EStateM.noting f m) m := by
  intro p hp
  have hm := h p.1 p.2 hp
  rw [EStateM.noting]
  cases hs : m p.1 with
  | ok a t =>
    rw [hs] at hm
    exact ⟨rfl, rfl, hm⟩
  | error e t =>
    rw [hs] at hm
    exact ⟨rfl, rfl, hm⟩

/-- A program whose state keeps `I` whatever the notes are. -/
theorem unnoted (h : ∀ notes, Keeps (fun s => I (s, notes)) m) : Notes I (EStateM.unnoted m) m := by
  refine noting fun s notes hs => ?_
  rw [List.append_nil]
  exact h notes s hs

theorem pure (a : α) : Notes I (pure a : EStateM ε (σ × List ω) α) (pure a) :=
  fun _ hp => ⟨rfl, rfl, hp⟩

theorem bind {f : α → EStateM ε (σ × List ω) β} {g : α → EStateM ε σ β} (h : Notes I n m)
    (hf : ∀ a, Notes I (f a) (g a)) : Notes I (n >>= f) (m >>= g) := by
  intro p hp
  have hend := h p hp
  cases hn : n p with
  | ok a q =>
    cases hm : m p.1 with
    | ok b t =>
      rw [hn, hm] at hend
      obtain ⟨rfl, rfl, hq⟩ := hend
      rw [EStateM.bind_ok hn, EStateM.bind_ok hm]
      exact hf a q hq
    | error e t =>
      rw [hn, hm] at hend
      exact hend.elim
  | error e q =>
    cases hm : m p.1 with
    | ok b t =>
      rw [hn, hm] at hend
      exact hend.elim
    | error e' t =>
      rw [hn, hm] at hend
      rw [EStateM.bind_error hn, EStateM.bind_error hm]
      exact hend

theorem ite {c : Prop} [Decidable c] {n' : EStateM ε (σ × List ω) α} {m' : EStateM ε σ α}
    (h : Notes I n m) (h' : Notes I n' m') :
    Notes I (if c then n else n') (if c then m else m') := by
  by_cases hc : c
  · rw [if_pos hc, if_pos hc]
    exact h
  · rw [if_neg hc, if_neg hc]
    exact h'

/-- Where the program without notes returns, so does the other, and its notes keep `I`. -/
theorem final_of_ok (h : Notes I n m) {p : σ × List ω} (hp : I p) {a : α} {t : σ}
    (hm : m p.1 = .ok a t) :
    (EStateM.final n p).1 = t ∧ I (EStateM.final n p) := by
  have hend := h p hp
  cases hn : n p with
  | ok b q =>
    rw [hn, hm] at hend
    rw [EStateM.final_ok hn]
    exact hend.2
  | error e q =>
    rw [hn, hm] at hend
    exact hend.elim

end Notes

end Lnpl.Lib
