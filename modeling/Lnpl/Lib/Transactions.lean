import Mathlib.Logic.Function.Basic

/-!
# Transactions on a shared store

Any number of connections to one store of states `σ`, as sqlite serves them: a transaction pins its
snapshot with its first statement, one connection at a time holds the write lock, and a statement
that would write while another connection holds it, or from a snapshot that is no longer current, is
refused.  A writing transaction works on a view of its own, which its commit publishes.
-/

namespace Lnpl.Lib

/-- The transaction of one connection. -/
inductive Txn (σ : Type) where
  | autocommit
  /-- `BEGIN` was issued, no statement has run in it -/
  | begun
  /-- a read pinned `snapshot`, the store after `stamp` commits -/
  | reading (stamp : Nat) (snapshot : σ)
  | writing (view : σ)

/-- The store, the number of commits, the connection that holds the write lock, and the
transactions. -/
structure Store (ρ σ : Type) where
  committed : σ
  commits : Nat := 0
  writer : Option ρ := none
  txn : ρ → Txn σ := fun _ => .autocommit

namespace Store

variable {ρ σ : Type} [DecidableEq ρ]

/-- What a read statement of the connection sees. -/
def visible (s : Store ρ σ) (c : ρ) : σ :=
  match s.txn c with
  | .autocommit | .begun => s.committed
  | .reading _ snapshot => snapshot
  | .writing view => view

def setTxn (s : Store ρ σ) (c : ρ) (txn : Txn σ) : Store ρ σ :=
  { s with txn := Function.update s.txn c txn }

/-- A read statement. -/
def read (s : Store ρ σ) (c : ρ) : Store ρ σ :=
  match s.txn c with
  | .begun => s.setTxn c (.reading s.commits s.committed)
  | _ => s

/-- What a write statement works on, `none` if it is refused. -/
def writable (s : Store ρ σ) (c : ρ) : Option σ :=
  match s.txn c with
  | .writing view => some view
  | .autocommit | .begun => if s.writer = none then some s.committed else none
  | .reading stamp snapshot => if s.writer = none ∧ stamp = s.commits then some snapshot else none

/-- A write statement of a transaction that has left `view`. -/
def write (s : Store ρ σ) (c : ρ) (view : σ) : Store ρ σ :=
  { s.setTxn c (.writing view) with writer := some c }

/-- A refused write statement of a transaction. -/
def refuse (s : Store ρ σ) (c : ρ) : Store ρ σ :=
  match s.txn c with
  | .autocommit => s.setTxn c .begun
  | _ => s

/-- A write statement in autocommit mode, of a connection that has no transaction open. -/
def publish (s : Store ρ σ) (view : σ) : Store ρ σ :=
  { s with
    committed := view
    commits := s.commits + 1 }

def commit (s : Store ρ σ) (c : ρ) : Store ρ σ :=
  match s.txn c with
  | .writing view => { (s.publish view).setTxn c .autocommit with writer := none }
  | _ => s.setTxn c .autocommit

def rollback (s : Store ρ σ) (c : ρ) : Store ρ σ :=
  match s.txn c with
  | .writing _ => { s.setTxn c .autocommit with writer := none }
  | _ => s.setTxn c .autocommit

/-! ### What a statement leaves alone -/

variable {s : Store ρ σ} {c : ρ} {view : σ}

@[simp] theorem committed_setTxn (txn : Txn σ) : (s.setTxn c txn).committed = s.committed := rfl

@[simp] theorem committed_read : (s.read c).committed = s.committed := by
  unfold Store.read
  split <;> rfl

@[simp] theorem committed_refuse : (s.refuse c).committed = s.committed := by
  unfold Store.refuse
  split <;> rfl

@[simp] theorem committed_write : (s.write c view).committed = s.committed := rfl

theorem txn_setTxn_self (txn : Txn σ) : (s.setTxn c txn).txn c = txn := by
  simp [setTxn]

variable {d : ρ}

theorem txn_setTxn_ne (txn : Txn σ) (h : d ≠ c) : (s.setTxn c txn).txn d = s.txn d := by
  simp [setTxn, h]

/-- A read makes no transaction a writing one, nor ends one. -/
theorem txn_read_eq_writing : (s.read c).txn d = .writing view ↔ s.txn d = .writing view := by
  unfold Store.read
  split
  · next hbegun =>
    by_cases hd : d = c
    · subst hd
      simp [txn_setTxn_self, hbegun]
    · rw [txn_setTxn_ne _ hd]
  · exact Iff.rfl

theorem txn_refuse_eq_writing : (s.refuse c).txn d = .writing view ↔ s.txn d = .writing view := by
  unfold Store.refuse
  split
  · next hauto =>
    by_cases hd : d = c
    · subst hd
      simp [txn_setTxn_self, hauto]
    · rw [txn_setTxn_ne _ hd]
  · exact Iff.rfl

theorem txn_write_self : (s.write c view).txn c = .writing view := txn_setTxn_self _

theorem txn_write_ne {d : ρ} (h : d ≠ c) : (s.write c view).txn d = s.txn d := txn_setTxn_ne _ h

/-! ### The end of a transaction -/

theorem commit_of_writing (h : s.txn c = .writing view) :
    s.commit c = { (s.publish view).setTxn c .autocommit with writer := none } := by
  unfold Store.commit
  rw [h]

theorem commit_of_not_writing (h : ∀ v, s.txn c ≠ .writing v) :
    s.commit c = s.setTxn c .autocommit := by
  unfold Store.commit
  split
  · next v hv => exact absurd hv (h v)
  · rfl

@[simp] theorem committed_rollback : (s.rollback c).committed = s.committed := by
  unfold Store.rollback
  split <;> rfl

theorem txn_commit_self : (s.commit c).txn c = .autocommit := by
  unfold Store.commit
  split <;> exact txn_setTxn_self _

theorem txn_commit_ne (h : d ≠ c) : (s.commit c).txn d = s.txn d := by
  unfold Store.commit
  split <;> exact txn_setTxn_ne _ h

theorem txn_rollback_self : (s.rollback c).txn c = .autocommit := by
  unfold Store.rollback
  split <;> exact txn_setTxn_self _

theorem txn_rollback_ne (h : d ≠ c) : (s.rollback c).txn d = s.txn d := by
  unfold Store.rollback
  split <;> exact txn_setTxn_ne _ h

/-! ### One writer at a time -/

/-- The lock is held by whoever writes, and a current snapshot is the committed store. -/
structure Serial (s : Store ρ σ) : Prop where
  writer : ∀ c view, s.txn c = .writing view → s.writer = some c
  stamp : ∀ c stamp snapshot, s.txn c = .reading stamp snapshot → stamp ≤ s.commits
  snapshot : ∀ c snapshot, s.txn c = .reading s.commits snapshot → snapshot = s.committed

omit [DecidableEq ρ] in
theorem serial_init (committed : σ) : Serial ({ committed := committed } : Store ρ σ) :=
  ⟨fun _ _ h => (nomatch h), fun _ _ _ h => (nomatch h), fun _ _ h => (nomatch h)⟩

section

variable (h : s.Serial)
include h

omit [DecidableEq ρ] in
/-- A write statement works on the transaction's view, or begins with the committed store. -/
theorem Serial.writable (hw : s.writable c = some view) :
    s.txn c = .writing view ∨
      (∀ v, s.txn c ≠ .writing v) ∧ s.writer = none ∧ view = s.committed := by
  unfold Store.writable at hw
  split at hw
  · next v htxn =>
    obtain rfl := Option.some.inj hw
    exact .inl htxn
  · next htxn =>
    split at hw
    · next hnone => exact .inr ⟨by simp [htxn], hnone, (Option.some.inj hw).symm⟩
    · cases hw
  · next htxn =>
    split at hw
    · next hnone => exact .inr ⟨by simp [htxn], hnone, (Option.some.inj hw).symm⟩
    · cases hw
  · next stamp snapshot htxn =>
    split at hw
    · next hcurrent =>
      obtain ⟨hnone, rfl⟩ := hcurrent
      obtain rfl := Option.some.inj hw
      exact .inr ⟨by simp [htxn], hnone, h.snapshot c snapshot htxn⟩
    · cases hw

/-- Another transaction, which is none that writes or pins a snapshot. -/
theorem Serial.setTxn {txn : Txn σ} (hw : ∀ v, txn ≠ .writing v)
    (hr : ∀ stamp snapshot, txn = .reading stamp snapshot →
      stamp = s.commits ∧ snapshot = s.committed) : (s.setTxn c txn).Serial := by
  constructor
  · intro d v hd
    by_cases hdc : d = c
    · subst hdc
      exact absurd (by simpa [Store.setTxn] using hd) (hw v)
    · exact h.writer d v (by simpa [Store.setTxn, hdc] using hd)
  · intro d stamp snapshot hd
    by_cases hdc : d = c
    · subst hdc
      exact (hr stamp snapshot (by simpa [Store.setTxn] using hd)).1 ▸ Nat.le_refl _
    · exact h.stamp d stamp snapshot (by simpa [Store.setTxn, hdc] using hd)
  · intro d snapshot hd
    by_cases hdc : d = c
    · subst hdc
      exact (hr s.commits snapshot (by simpa [Store.setTxn] using hd)).2
    · exact h.snapshot d snapshot (by simpa [Store.setTxn, hdc] using hd)

theorem Serial.read : (s.read c).Serial := by
  unfold Store.read
  split
  · apply h.setTxn
    · exact fun _ => by simp
    · intro stamp snapshot heq
      cases heq
      exact ⟨rfl, rfl⟩
  · exact h

theorem Serial.refuse : (s.refuse c).Serial := by
  unfold Store.refuse
  split
  · exact h.setTxn (fun _ => by simp) fun _ _ heq => (nomatch heq)
  · exact h

/-- Whoever may write is the only one that writes afterwards. -/
theorem Serial.write {v : σ} (hw : s.writable c = some v) : (s.write c view).Serial := by
  have halone : ∀ d v', d ≠ c → s.txn d ≠ .writing v' := by
    intro d v' hdc hd
    have hwriter := h.writer d v' hd
    obtain hc | ⟨-, hnone, -⟩ := h.writable hw
    · have hwriter' := h.writer c v hc
      rw [hwriter] at hwriter'
      exact hdc (Option.some.inj hwriter')
    · rw [hnone] at hwriter
      cases hwriter
  constructor
  · intro d v' hd
    by_cases hdc : d = c
    · rw [hdc]
      rfl
    · exact absurd (by simpa [Store.write, Store.setTxn, hdc] using hd) (halone d v' hdc)
  · intro d stamp snapshot hd
    by_cases hdc : d = c
    · subst hdc
      simp [Store.write, Store.setTxn] at hd
    · exact h.stamp d stamp snapshot (by simpa [Store.write, Store.setTxn, hdc] using hd)
  · intro d snapshot hd
    by_cases hdc : d = c
    · subst hdc
      simp [Store.write, Store.setTxn] at hd
    · exact h.snapshot d snapshot (by simpa [Store.write, Store.setTxn, hdc] using hd)

omit [DecidableEq ρ] in
theorem Serial.publish : (s.publish view).Serial := by
  constructor
  · exact h.writer
  · intro d stamp snapshot hd
    exact Nat.le_succ_of_le (h.stamp d stamp snapshot hd)
  · intro d snapshot hd
    have hle := h.stamp d (s.commits + 1) snapshot hd
    exact absurd hle (Nat.not_succ_le_self _)

omit [DecidableEq ρ] in
/-- The lock is released by whoever held it. -/
theorem Serial.release (hwriter : ∀ d v, s.txn d ≠ .writing v) : Serial { s with writer := none } :=
  ⟨fun d v hd => absurd hd (hwriter d v), h.stamp, h.snapshot⟩

theorem Serial.setTxn_not_writing (hc : s.txn c = .writing view) (d : ρ) (v : σ) :
    (s.setTxn c .autocommit).txn d ≠ .writing v := by
  by_cases hdc : d = c
  · subst hdc
    simp [Store.setTxn]
  · intro hd
    have hd' : s.txn d = .writing v := by simpa [Store.setTxn, hdc] using hd
    have hwriter := h.writer d v hd'
    rw [h.writer c view hc] at hwriter
    exact hdc (Option.some.inj hwriter).symm

theorem Serial.commit : (s.commit c).Serial := by
  unfold Store.commit
  split
  · next view hc =>
    have hpublished : (s.publish view).Serial := h.publish
    have hset : ((s.publish view).setTxn c .autocommit).Serial :=
      hpublished.setTxn (fun _ => by simp) fun _ _ heq => (nomatch heq)
    exact hset.release (hpublished.setTxn_not_writing hc)
  · exact h.setTxn (fun _ => by simp) fun _ _ heq => (nomatch heq)

theorem Serial.rollback : (s.rollback c).Serial := by
  unfold Store.rollback
  split
  · next view hc =>
    have hset : (s.setTxn c .autocommit).Serial :=
      h.setTxn (fun _ => by simp) fun _ _ heq => (nomatch heq)
    exact hset.release (h.setTxn_not_writing hc)
  · exact h.setTxn (fun _ => by simp) fun _ _ heq => (nomatch heq)

end

end Store

end Lnpl.Lib
