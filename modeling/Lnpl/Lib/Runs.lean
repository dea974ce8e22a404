import Mathlib.Logic.Relation

/-!
# Runs of a machine

A machine is a function `step : σ → α → σ`.  What holds of every action of a run, in the state that
the action finds, is a statement about the ways to split the run (`Throughout`).  If the states
keep an invariant along the actions that meet a condition, and under it the condition decides
whether an action is good, then all actions of a run are good if and only if all meet the condition
(`throughout_iff`).
-/

namespace Lnpl.Lib

variable {σ : Type*} {α : Type*}

/-- `P` holds of every action of the run, in the state before the action. -/
def Throughout (step : σ → α → σ) (P : σ → α → Prop) (s : σ) (actions : List α) : Prop :=
  ∀ before a later, actions = before ++ a :: later → P (before.foldl step s) a

variable {step : σ → α → σ} {P : σ → α → Prop}

theorem throughout_nil (s : σ) : Throughout step P s [] := by
  intro before a later h
  exact absurd h.symm (List.append_ne_nil_of_right_ne_nil _ (List.cons_ne_nil _ _))

theorem throughout_cons {s : σ} {a : α} {actions : List α} :
    Throughout step P s (a :: actions) ↔ P s a ∧ Throughout step P (step s a) actions := by
  constructor
  · intro h
    refine ⟨h [] a actions rfl, ?_⟩
    intro before b later hsplit
    exact h (a :: before) b later (by rw [hsplit, List.cons_append])
  · rintro ⟨hfirst, hrest⟩ before b later hsplit
    cases before with
    | nil =>
      obtain ⟨rfl, -⟩ := List.cons.inj hsplit
      exact hfirst
    | cons c before =>
      obtain ⟨rfl, htail⟩ := List.cons.inj hsplit
      exact hrest before b later htail

/-- **Runs** whose actions are good. -/
theorem throughout_iff {Good Meets : σ → α → Prop} {I : σ → Prop}
    (hgood : ∀ s a, I s → (Good s a ↔ Meets s a))
    (hkeep : ∀ s a, I s → Meets s a → I (step s a)) (actions : List α) :
    ∀ s, I s → (Throughout step Good s actions ↔ Throughout step Meets s actions) := by
  induction actions with
  | nil => exact fun s _ => ⟨fun _ => throughout_nil s, fun _ => throughout_nil s⟩
  | cons a actions ih =>
    intro s hs
    rw [throughout_cons, throughout_cons]
    constructor
    · rintro ⟨hfirst, hrest⟩
      have hmeets := (hgood s a hs).mp hfirst
      exact ⟨hmeets, (ih _ (hkeep s a hs hmeets)).mp hrest⟩
    · rintro ⟨hmeets, hrest⟩
      exact ⟨(hgood s a hs).mpr hmeets, (ih _ (hkeep s a hs hmeets)).mpr hrest⟩

end Lnpl.Lib

/-!
## Runs of a partial step function

A component is given by `step : σ → α → Option σ`: `step s a = some t` when the action `a` can
happen in the state `s` and leads to `t`.  `Reaches step C s t` says that some run leads from `s`
to `t` in which every action meets the side condition `C` in the state it happens in.  An
invariant is proved by one step lemma (`Reaches.invariant`); a concrete run is executed by
`exec`.
-/

namespace Lnpl.Lib

variable {σ : Type*} {α : Type*}

/-- `t` is reached from `s` by actions that all meet `C` where they happen. -/
def Reaches (step : σ → α → Option σ) (C : σ → α → Prop) : σ → σ → Prop :=
  Relation.ReflTransGen fun s t => ∃ a, C s a ∧ step s a = some t

/-- The side condition of an unrestricted run. -/
def anyAction : σ → α → Prop := fun _ _ => True

/-- The state a list of actions leads to, `none` if one of them is not enabled. -/
def exec (step : σ → α → Option σ) : σ → List α → Option σ
  | s, [] => some s
  | s, a :: as => (step s a).bind fun t => exec step t as

variable {step : σ → α → Option σ} {C : σ → α → Prop} {s t u : σ}

/-- Two actions, one after the other. -/
theorem exec_pair {a b : α} (h : exec step s [a, b] = some u) :
    ∃ t, step s a = some t ∧ step t b = some u := by
  simp only [exec, Option.bind_eq_some_iff, Option.some.injEq] at h
  obtain ⟨t, ha, u', hb, rfl⟩ := h
  exact ⟨t, ha, hb⟩

theorem Reaches.refl : Reaches step C s s := Relation.ReflTransGen.refl

theorem Reaches.tail {a : α} (h : Reaches step C s t) (hC : C t a) (ha : step t a = some u) :
    Reaches step C s u :=
  Relation.ReflTransGen.tail h ⟨a, hC, ha⟩

theorem Reaches.head {a : α} (hC : C s a) (ha : step s a = some t) (h : Reaches step C t u) :
    Reaches step C s u :=
  Relation.ReflTransGen.head ⟨a, hC, ha⟩ h

/-- **Invariants.** What every action that meets `C` preserves holds in every state reached. -/
theorem Reaches.invariant {I : σ → Prop} (hr : Reaches step C s t)
    (hstep : ∀ {x a y}, I x → C x a → step x a = some y → I y) (hs : I s) : I t := by
  induction hr with
  | refl => exact hs
  | tail _ h ih =>
    obtain ⟨a, hC, ha⟩ := h
    exact hstep ih hC ha

/-- An executed list of actions that all meet `C` is a run. -/
theorem reaches_of_exec_all {as : List α} (hC : ∀ a ∈ as, ∀ s, C s a)
    (h : exec step s as = some t) : Reaches step C s t := by
  induction as generalizing s with
  | nil =>
    obtain rfl : s = t := by simpa [exec] using h
    exact .refl
  | cons a as ih =>
    simp only [exec, Option.bind_eq_some_iff] at h
    obtain ⟨x, hx, hxt⟩ := h
    exact .head (hC a List.mem_cons_self s) hx (ih (fun b hb => hC b (List.mem_cons_of_mem a hb)) hxt)

/-- An executed list of actions is a run. -/
theorem reaches_of_exec {as : List α} (h : exec step s as = some t) :
    Reaches step anyAction s t :=
  reaches_of_exec_all (fun _ _ _ => trivial) h

end Lnpl.Lib

/-!
## Components that answer calls

A component is a function `call : σ → α → σ × β`: the state after a call, and its answer.  Two
components agree on a list of calls if a relation between their states is kept by every call that
is allowed where it is made (`Allowed`), and gives equal answers there (`runCalls_agree`).
-/

namespace Lnpl.Lib

variable {σ : Type*} {τ : Type*} {α : Type*} {β : Type*}

/-- The state after a list of calls, and their answers. -/
def runCalls (call : σ → α → σ × β) : σ → List α → σ × List β
  | s, [] => (s, [])
  | s, c :: cs =>
    let r := call s c
    let rest := runCalls call r.1 cs
    (rest.1, r.2 :: rest.2)

/-- Every call of the list meets `P` in the state it is made in. -/
def Allowed (call : σ → α → σ × β) (P : σ → α → Prop) : σ → List α → Prop
  | _, [] => True
  | s, c :: cs => P s c ∧ Allowed call P (call s c).1 cs

/-- **Simulation.** -/
theorem runCalls_agree {call : σ → α → σ × β} {call' : τ → α → τ × β} {P : σ → α → Prop}
    {R : σ → τ → Prop}
    (hstep : ∀ s t c, R s t → P s c →
      (call s c).2 = (call' t c).2 ∧ R (call s c).1 (call' t c).1) :
    ∀ (cs : List α) (s : σ) (t : τ), R s t → Allowed call P s cs →
      (runCalls call s cs).2 = (runCalls call' t cs).2 ∧
        R (runCalls call s cs).1 (runCalls call' t cs).1
  | [], _, _, hR, _ => ⟨rfl, hR⟩
  | c :: cs, s, t, hR, hP => by
    obtain ⟨hans, hR'⟩ := hstep s t c hR hP.1
    obtain ⟨hrest, hfinal⟩ := runCalls_agree hstep cs _ _ hR' hP.2
    exact ⟨by simp only [runCalls, hans, hrest], hfinal⟩

end Lnpl.Lib
