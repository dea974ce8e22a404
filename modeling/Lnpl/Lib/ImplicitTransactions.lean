import Lnpl.Lib.Triple

/-!
# Implicit transactions

A connection opens a transaction before the first statement that changes data, and keeps it open
until it is committed or rolled back; an error undoes its own statement, or the transaction.  The
programs here work on such a connection.  What the database answers is given: `Answers` says it of
each operation of a call, by its position among the operations of the call.  A change carries the
number of the call that made it, so that it can be told whose changes a commit publishes.
-/

namespace Lnpl.Lib.Implicit

/-- An error of the database. -/
structure SqlError where
  text : String
  integrity : Bool := false
  /-- the transaction was rolled back -/
  rolledBack : Bool := false
  deriving Repr

/-- A statement that changed data. -/
structure Change (τ : Type) where
  call : Nat
  statement : τ

/-- A connection, with the flags that its owner keeps of it. -/
structure Session (φ τ : Type) where
  flags : φ
  /-- the number of the call under way -/
  calls : Nat := 0
  /-- how many operations it has issued -/
  ops : Nat := 0
  /-- the changes of the transaction that is open -/
  pending : List (Change τ) := []
  /-- the changes that other connections see -/
  published : List (Change τ) := []

/-- What a program raises: an error of the database that it has not caught, or one of its own. -/
inductive Raised (δ : Type) where
  | sql (error : SqlError)
  | driver (error : δ)

abbrev Prog (φ τ δ α : Type) := EStateM (Raised δ) (Session φ τ) α

/-- What an operation is answered, by its position. -/
abbrev Answers (α : Type) := Nat → Except SqlError α

variable {φ τ δ α : Type}

/-! ### Operations -/

/-- The next operation of the call. -/
def operation (answers : Answers α) : Prog φ τ δ α := fun s =>
  match answers s.ops with
  | .ok a => .ok a { s with ops := s.ops + 1 }
  | .error x =>
    .error (.sql x)
      { s with
        ops := s.ops + 1
        pending := if x.rolledBack then [] else s.pending }

/-- The statement in the open transaction, if it has changed a row. -/
def record (statement : τ) (count : Nat) (s : Session φ τ) : Session φ τ :=
  { s with pending := if 0 < count then s.pending ++ [⟨s.calls, statement⟩] else s.pending }

/-- A statement that changes data, with its row count. -/
def change (answers : Answers Nat) (statement : τ) : Prog φ τ δ Nat := do
  let count ← operation answers
  modify (record statement count)
  return count

def publish (s : Session φ τ) : Session φ τ :=
  { s with
    published := s.published ++ s.pending
    pending := [] }

def commit (answers : Answers Unit) : Prog φ τ δ Unit := do
  operation answers
  modify publish

def discard (s : Session φ τ) : Session φ τ := { s with pending := [] }

def rollback (answers : Answers Unit) : Prog φ τ δ Unit := do
  operation answers
  modify discard

/-- Statements one after the other. -/
def changeAll (answers : τ → Answers Nat) : List τ → Prog φ τ δ Unit
  | [] => return
  | statement :: statements => do
    let _ ← change (answers statement) statement
    changeAll answers statements

/-! ### Whose changes there are -/

/-- A change of the call is in the open transaction. -/
def Session.Holds (s : Session φ τ) (call : Nat) : Prop := ∃ x ∈ s.pending, x.call = call

/-- Other connections see a change of the call. -/
def Session.Shows (s : Session φ τ) (call : Nat) : Prop := ∃ x ∈ s.published, x.call = call

/-- The call under way has the number `call` and has issued `ops` operations; whether it has changes
in the open transaction, and whether other connections see changes of it. -/
structure At (flags : φ) (call ops : Nat) (held shown : Prop) (s : Session φ τ) : Prop where
  kept : s.flags = flags
  number : s.calls = call
  issued : s.ops = ops
  held : s.Holds call ↔ held
  shown : s.Shows call ↔ shown

/-- The operation at `ops` was answered with an error. -/
def Failed (answers : Answers α) (flags : φ) (call ops : Nat) (held shown : Prop)
    (raised : Raised δ) (s : Session φ τ) : Prop :=
  ∃ x, raised = .sql x ∧ answers ops = .error x ∧
    At flags call (ops + 1) (held ∧ x.rolledBack = false) shown s

section

variable {flags : φ} {call ops : Nat} {held shown : Prop}

theorem At.next {s : Session φ τ} (h : At flags call ops held shown s) :
    At flags call (ops + 1) held shown { s with ops := s.ops + 1 } :=
  ⟨h.kept, h.number, congrArg (· + 1) h.issued, h.held, h.shown⟩

theorem triple_operation (answers : Answers α) :
    Triple (At flags call ops held shown) (operation answers : Prog φ τ δ α)
      (fun a s => answers ops = .ok a ∧ At flags call (ops + 1) held shown s)
      (Failed answers flags call ops held shown) := by
  intro s hs
  rw [operation, hs.issued]
  cases hanswer : answers ops with
  | ok a =>
    have hnext := hs.next
    rw [hs.issued] at hnext
    exact ⟨rfl, hnext⟩
  | error x =>
    refine ⟨x, rfl, hanswer, ⟨hs.kept, hs.number, rfl, ?_, hs.shown⟩⟩
    have hheld := hs.held
    cases hrolled : x.rolledBack with
    | false => simpa [Session.Holds] using hheld
    | true => simp [Session.Holds]

theorem triple_change (answers : Answers Nat) (statement : τ) :
    Triple (At flags call ops held shown) (change answers statement : Prog φ τ δ Nat)
      (fun count s => answers ops = .ok count ∧
        At flags call (ops + 1) (held ∨ 0 < count) shown s)
      (Failed answers flags call ops held shown) := by
  apply Triple.bind (triple_operation answers)
  intro count
  apply Triple.assume
  intro hanswer
  apply Triple.bind (Q := fun _ s => At flags call (ops + 1) (held ∨ 0 < count) shown s)
  · apply Triple.modify
    intro s hs
    refine ⟨hs.kept, hs.number, hs.issued, ?_, hs.shown⟩
    have hheld := hs.held
    have hcall := hs.number
    by_cases hcount : 0 < count
    · rw [record, if_pos hcount]
      constructor
      · intro _
        exact Or.inr hcount
      · intro _
        exact ⟨⟨s.calls, statement⟩, List.mem_append_right _ List.mem_cons_self, hcall⟩
    · rw [record, if_neg hcount]
      constructor
      · intro h
        exact Or.inl (hheld.mp h)
      · rintro (h | h)
        · exact hheld.mpr h
        · exact absurd h hcount
  · intro _
    exact Triple.pure fun s hs => ⟨hanswer, hs⟩

theorem triple_commit (answers : Answers Unit) :
    Triple (At flags call ops held shown) (commit answers : Prog φ τ δ Unit)
      (fun _ s => answers ops = .ok () ∧ At flags call (ops + 1) False (shown ∨ held) s)
      (Failed answers flags call ops held shown) := by
  apply Triple.bind (triple_operation answers)
  intro _
  apply Triple.modify
  rintro s ⟨hanswer, hs⟩
  refine ⟨hanswer, hs.kept, hs.number, hs.issued, ?_, ?_⟩
  · simp [publish, Session.Holds]
  · rw [← hs.shown, ← hs.held]
    simp only [publish, Session.Shows, Session.Holds, List.mem_append, or_and_right, exists_or]

theorem triple_rollback (answers : Answers Unit) :
    Triple (At flags call ops held shown) (rollback answers : Prog φ τ δ Unit)
      (fun _ s => answers ops = .ok () ∧ At flags call (ops + 1) False shown s)
      (Failed answers flags call ops held shown) := by
  apply Triple.bind (triple_operation answers)
  intro _
  apply Triple.modify
  rintro s ⟨hanswer, hs⟩
  refine ⟨hanswer, hs.kept, hs.number, hs.issued, ?_, hs.shown⟩
  simp [discard, Session.Holds]

end

/-! ### Where a row of statements breaks off -/

/-- The statements, from the operation `ops` on, end with an error that leaves a change of theirs in
the open transaction: at a statement, or at the commit. -/
def BreaksOff (answers : τ → Answers Nat) (commits : Answers Unit) :
    Prop → Nat → List τ → Prop
  | held, ops, [] => held ∧ ∃ x, commits ops = .error x ∧ x.rolledBack = false
  | held, ops, statement :: statements =>
    (held ∧ ∃ x, answers statement ops = .error x ∧ x.rolledBack = false) ∨
      ∃ count, answers statement ops = .ok count ∧
        BreaksOff answers commits (held ∨ 0 < count) (ops + 1) statements

/-- How a row of statements ends that raises: a change of it is left if and only if it broke off. -/
def LeftIf (flags : φ) (call : Nat) (left : Prop) (raised : Raised δ) (s : Session φ τ) : Prop :=
  (∃ x, raised = .sql x) ∧ ∃ ops, At flags call ops left False s

/-- A commit with these answers. -/
def Commits (commits : Answers Unit) (flags : φ) (call : Nat) (last : Prog φ τ δ Unit) : Prop :=
  ∀ ops held, Triple (At flags call ops held False) last (fun _ _ => commits ops = .ok ())
    (Failed commits flags call ops held False)

/-- A row of statements and a commit: if they return they did not break off; if they raise, a change
is left if and only if they did. -/
theorem triple_changeAll (answers : τ → Answers Nat) {commits : Answers Unit} {flags : φ}
    {call : Nat} {last : Prog φ τ δ Unit} (hlast : Commits commits flags call last)
    (statements : List τ) : ∀ ops held,
      Triple (At flags call ops held False)
        (changeAll answers statements >>= fun _ => last)
        (fun _ _ => ¬BreaksOff answers commits held ops statements)
        (LeftIf flags call (BreaksOff answers commits held ops statements)) := by
  induction statements with
  | nil =>
    intro ops held
    rw [changeAll, pure_bind]
    apply (hlast ops held).mono (fun s hs => hs)
    · rintro _ s hanswer ⟨-, x, herror, -⟩
      rw [hanswer] at herror
      cases herror
    · rintro raised s ⟨x, rfl, herror, hs⟩
      refine ⟨⟨x, rfl⟩, ops + 1, hs.kept, hs.number, hs.issued, ?_, hs.shown⟩
      rw [hs.held, BreaksOff]
      constructor
      · rintro ⟨hheld, hrolled⟩
        exact ⟨hheld, x, herror, hrolled⟩
      · rintro ⟨hheld, y, herror', hrolled⟩
        rw [herror] at herror'
        obtain rfl := Except.error.inj herror'
        exact ⟨hheld, hrolled⟩
  | cons statement statements ih =>
    intro ops held
    have hchange : Triple (At flags call ops held False)
        (change (answers statement) statement : Prog φ τ δ Nat)
        (fun count s => answers statement ops = .ok count ∧
          At flags call (ops + 1) (held ∨ 0 < count) False s)
        (LeftIf flags call (BreaksOff answers commits held ops (statement :: statements))) := by
      apply (triple_change (answers statement) statement).mono (fun s hs => hs) fun _ _ h => h
      rintro raised s ⟨x, rfl, herror, hs⟩
      refine ⟨⟨x, rfl⟩, ops + 1, hs.kept, hs.number, hs.issued, ?_, hs.shown⟩
      rw [hs.held, BreaksOff]
      constructor
      · rintro ⟨hheld, hrolled⟩
        exact Or.inl ⟨hheld, x, herror, hrolled⟩
      · rintro (⟨hheld, y, herror', hrolled⟩ | ⟨count, hanswer, -⟩)
        · rw [herror] at herror'
          obtain rfl := Except.error.inj herror'
          exact ⟨hheld, hrolled⟩
        · rw [herror] at hanswer
          cases hanswer
    rw [changeAll, bind_assoc]
    apply Triple.bind hchange
    intro count
    apply Triple.assume
    intro hanswer
    have hiff : BreaksOff answers commits held ops (statement :: statements) ↔
        BreaksOff answers commits (held ∨ 0 < count) (ops + 1) statements := by
      rw [BreaksOff]
      constructor
      · rintro (⟨-, x, herror, -⟩ | ⟨count', hanswer', hrest⟩)
        · rw [hanswer] at herror
          cases herror
        · rw [hanswer] at hanswer'
          obtain rfl := Except.ok.inj hanswer'
          exact hrest
      · intro hrest
        exact Or.inr ⟨count, hanswer, hrest⟩
    rw [hiff]
    exact ih (ops + 1) (held ∨ 0 < count)

/-! ### Whose changes there can be -/

/-- All changes are of calls in `R`, the call under way too. -/
structure Among (R : Nat → Prop) (call : Nat) (s : Session φ τ) : Prop where
  number : s.calls = call
  pending : ∀ x ∈ s.pending, R x.call
  published : ∀ x ∈ s.published, R x.call

section

variable {R : Nat → Prop} {call : Nat}

theorem keeps_operation (answers : Answers α) :
    Keeps (Among R call) (operation answers : Prog φ τ δ α) := by
  intro s hs
  rw [operation]
  cases answers s.ops with
  | ok a => exact ⟨hs.number, hs.pending, hs.published⟩
  | error x =>
    refine ⟨hs.number, ?_, hs.published⟩
    cases hrolled : x.rolledBack with
    | false => exact hs.pending
    | true => exact fun _ h => absurd h List.not_mem_nil

theorem keeps_change (hcall : R call) (answers : Answers Nat) (statement : τ) :
    Keeps (Among R call) (change answers statement : Prog φ τ δ Nat) := by
  apply Triple.bind (keeps_operation answers)
  intro count
  apply Triple.bind (Q := fun _ => Among R call)
  · apply Triple.modify
    intro s hs
    refine ⟨hs.number, ?_, hs.published⟩
    rw [record]
    by_cases hcount : 0 < count
    · rw [if_pos hcount]
      intro x hx
      rcases List.mem_append.mp hx with hx | hx
      · exact hs.pending x hx
      · rw [List.mem_singleton.mp hx]
        show R s.calls
        rw [hs.number]
        exact hcall
    · rw [if_neg hcount]
      exact hs.pending
  · intro _
    exact Triple.pure fun _ hs => hs

theorem keeps_commit (answers : Answers Unit) :
    Keeps (Among R call) (commit answers : Prog φ τ δ Unit) := by
  apply Triple.bind (keeps_operation answers)
  intro _
  apply Triple.modify
  intro s hs
  refine ⟨hs.number, fun _ h => absurd h List.not_mem_nil, ?_⟩
  exact List.forall_mem_append.mpr ⟨hs.published, hs.pending⟩

theorem keeps_rollback (answers : Answers Unit) :
    Keeps (Among R call) (rollback answers : Prog φ τ δ Unit) := by
  apply Triple.bind (keeps_operation answers)
  intro _
  apply Triple.modify
  intro s hs
  exact ⟨hs.number, fun _ h => absurd h List.not_mem_nil, hs.published⟩

theorem keeps_changeAll (hcall : R call) (answers : τ → Answers Nat) (statements : List τ) :
    Keeps (Among R call) (changeAll answers statements : Prog φ τ δ Unit) := by
  induction statements with
  | nil => exact Triple.pure fun _ hs => hs
  | cons statement statements ih =>
    apply Triple.bind (keeps_change hcall _ _)
    intro _
    exact ih

end

end Lnpl.Lib.Implicit
