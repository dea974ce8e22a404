import Mathlib.Data.List.Basic

/-!
# Generators with a `finally`

Python generator objects, as far as their callers can tell: where they stand, what a call of `next`
ends with, and which `finally` blocks a call of `next` or `close` runs.  The code of the innermost
generator is not modelled: what its turns end with is given from outside.

A `finally` that fails itself ends its generator as a failure in its body does.
-/

namespace Lnpl.Lib

/-- Where a generator object stands. -/
inductive GenStatus where
  | unstarted
  | suspended
  | finished
  deriving DecidableEq, Repr

/-- What a call of `next` ends with. -/
inductive Turn (β ε : Type) where
  | yielded (chunk : β)
  /-- `StopIteration` -/
  | returned
  | raised (e : ε)
  deriving DecidableEq, Repr

/-- A generator object; `φ` names the blocks that a `finally` may run. -/
inductive Gen (φ : Type) where
  | source (status : GenStatus)
  /-- `try: for chunk in inner: yield chunk`, `finally: block` -/
  | forwarding (block : φ) (status : GenStatus) (inner : Gen φ)
  deriving DecidableEq, Repr

namespace Gen

variable {φ β ε : Type}

def status : Gen φ → GenStatus
  | source status => status
  | forwarding _ status _ => status

/-- The status after a turn. -/
def after : Turn β ε → GenStatus
  | .yielded _ => .suspended
  | _ => .finished

/-- `next(g)`, where the innermost generator's turn, if it comes to that, ends with `turn`; and the
blocks that are run. -/
def next (turn : Turn β ε) : Gen φ → Gen φ × Turn β ε × List φ
  | source .finished => (source .finished, .returned, [])
  | source _ => (source (after turn), turn, [])
  | forwarding block .finished inner => (forwarding block .finished inner, .returned, [])
  | forwarding block _ inner =>
    match inner.next turn with
    | (inner, .yielded chunk, ran) => (forwarding block .suspended inner, .yielded chunk, ran)
    | (inner, ended, ran) => (forwarding block .finished inner, ended, ran ++ [block])

/-- `g.close()`, and the blocks that are run.  A generator that has not started has no `finally` to
run; the inner generator goes with the frame that holds it. -/
def close : Gen φ → Gen φ × List φ
  | source _ => (source .finished, [])
  | forwarding block .suspended inner =>
    (forwarding block .finished inner.close.1, block :: inner.close.2)
  | forwarding block _ inner => (forwarding block .finished inner.close.1, [])

/-- The blocks of the generator objects that hang on each other. -/
def blocks : Gen φ → List φ
  | source _ => []
  | forwarding block _ inner => block :: inner.blocks

variable {block : φ} {inner : Gen φ}

/-! ### What a call does -/

@[simp] theorem blocks_next (turn : Turn β ε) (g : Gen φ) : (g.next turn).1.blocks = g.blocks := by
  induction g with
  | source status => cases status <;> rfl
  | forwarding block status inner ih =>
    cases status with
    | finished => rfl
    | unstarted | suspended =>
      simp only [next]
      split
      all_goals
        next heq =>
          rw [heq] at ih
          exact congrArg (block :: ·) ih

@[simp] theorem blocks_close (g : Gen φ) : g.close.1.blocks = g.blocks := by
  induction g with
  | source status => rfl
  | forwarding block status inner ih =>
    cases status <;> exact congrArg (block :: ·) ih

/-- Only blocks of the object are run. -/
theorem mem_blocks_of_next (turn : Turn β ε) (g : Gen φ) : (g.next turn).2.2 ⊆ g.blocks := by
  induction g with
  | source status => cases status <;> exact List.nil_subset _
  | forwarding block status inner ih =>
    cases status with
    | finished => exact List.nil_subset _
    | unstarted | suspended =>
      simp only [next]
      split
      all_goals
        next heq =>
          rw [heq] at ih
          simp only [blocks]
          intro b hb
          have hmem := @ih b
          simp only [List.mem_append, List.mem_cons] at hb ⊢
          tauto

theorem mem_blocks_of_close (g : Gen φ) : g.close.2 ⊆ g.blocks := by
  induction g with
  | source status => exact List.nil_subset _
  | forwarding block status inner ih =>
    cases status with
    | suspended => exact List.cons_subset_cons block ih
    | unstarted | finished => exact List.nil_subset _

/-- A turn of a forwarding generator that is not over: it forwards a chunk, or its block is run and
it is over. -/
theorem next_forwarding (block : φ) (inner : Gen φ) (turn : Turn β ε) {status : GenStatus}
    (h : status ≠ .finished) :
    (∃ chunk, (forwarding block status inner).next turn =
      (forwarding block .suspended (inner.next turn).1, .yielded chunk, (inner.next turn).2.2)) ∨
    ∃ ended, (forwarding block status inner).next turn =
      (forwarding block .finished (inner.next turn).1, ended,
        (inner.next turn).2.2 ++ [block]) := by
  cases status with
  | finished => exact absurd rfl h
  | unstarted | suspended =>
    simp only [next]
    split
    · next heq => exact .inl ⟨_, by rw [heq]⟩
    · next heq => exact .inr ⟨_, by rw [heq]⟩

end Gen

end Lnpl.Lib
