import Lnpl.Drivers.WriteCalls

/-!
# What a failed call leaves behind

A call made outside a workflow's transaction that raises is to leave nothing of its effect.  It does
so if and only if no error comes after a statement of it has changed a row (`atomic_iff`): such a
change stays in the transaction that sqlite opened for it, and a later call on the connection
commits it.
-/

namespace Lnpl.Drivers.WriteCalls

open Lnpl.Lib Lnpl.Lib.Implicit
open Lnpl.Drivers.Emissions (Emission)
open Lnpl.Drivers.Idempotency (Claim)

variable {P α : Type}

/-- Whatever is called later on the connection, other connections see nothing of the call if it
raises. -/
def Attempt.Atomic (a : Attempt P) (before : List (Attempt P)) : Prop :=
  a.Raises (session before) →
    ∀ later, ¬(session (before ++ a :: later)).Shows before.length

/-! ### The calls that are interrupted -/

/-- Every sequence number has a row. -/
def AllFound (sqlite : Sqlite P) : Nat → List Nat → Prop
  | _, [] => True
  | ops, seq :: seqs => sqlite.selectOutboxSeq seq ops = .ok true ∧ AllFound sqlite (ops + 1) seqs

/-- The claim of a key fails. -/
def ClaimFails (sqlite : Sqlite P) (workflowId key : String) (now : Int) (ops : Nat) : Prop :=
  (∃ x, sqlite.change (.insertInProgress key workflowId now) ops = .error x ∧
    x.integrity = false) ∨
  ∃ count x, sqlite.change (.insertInProgress key workflowId now) ops = .ok count ∧
    sqlite.commit (ops + 1) = .error x ∧ x.integrity = false

/-- The claim of a key fails at its commit. -/
def ClaimInterrupted (sqlite : Sqlite P) (workflowId key : String) (now : Int) (ops : Nat) : Prop :=
  ∃ count x, sqlite.change (.insertInProgress key workflowId now) ops = .ok count ∧ 0 < count ∧
    sqlite.commit (ops + 1) = .error x ∧ x.rolledBack = false ∧ x.integrity = false

/-- An expired claim is removed, and then the removal or the new claim fails. -/
def ExpiryInterrupted (sqlite : Sqlite P) (workflowId key : String) (now : Int) : Prop :=
  BreaksOff sqlite.change sqlite.commit False 1 [.deleteIdempotency workflowId key] ∨
    ∃ count, sqlite.change (.deleteIdempotency workflowId key) 1 = .ok count ∧
      sqlite.commit 2 = .ok () ∧
      (0 < count ∧ ClaimFails sqlite workflowId key now 3 ∨
        ClaimInterrupted sqlite workflowId key now 3)

/-- An error comes after a statement of the call has changed a row.  Where the change is not yet
committed, sqlite is not to have rolled it back. -/
def Interrupted (sqlite : Sqlite P) : Call P → Prop
  | .seed rows => BreaksOff sqlite.change sqlite.commit False 0
      (rows.map fun row => .insertIfAbsent row.1 row.2.1 row.2.2)
  | .create entity key encoded =>
    BreaksOff sqlite.change sqlite.commit False 0 [.insertRow entity key encoded]
  | .update entity key encoded => ∃ found, sqlite.selectRow entity key 0 = .ok found ∧
      BreaksOff sqlite.change sqlite.commit False 1
        [.updateRow ((found.map Prod.fst).getD encoded) entity key]
  | .delete entity key => BreaksOff sqlite.change sqlite.commit False 0 [.deleteRow entity key]
  | .persist entity key payload none =>
    BreaksOff sqlite.change sqlite.commit False 0 [.updateRow payload entity key]
  | .persist entity key payload (some version) =>
    BreaksOff sqlite.change sqlite.commit False 0
      [.updateRowVersioned payload entity key version]
  | .recordEmission emission now =>
    BreaksOff sqlite.change sqlite.commit False 0 [.insertOutbox emission now]
  | .ackOutbox seqs now => AllFound sqlite 0 seqs ∧
      BreaksOff sqlite.change sqlite.commit False seqs.length
        (seqs.map fun seq => .markDelivered now seq)
  | .idempotencyBegin workflowId key now ttl =>
    (sqlite.selectIdempotency workflowId key 0 = .ok none ∧
      ClaimInterrupted sqlite workflowId key now 1) ∨
    ∃ claim, sqlite.selectIdempotency workflowId key 0 = .ok (some claim) ∧
      ¬now - claim.createdAt < ttl ∧ ExpiryInterrupted sqlite workflowId key now
  | .idempotencyFinish workflowId key httpStatus body =>
    BreaksOff sqlite.change sqlite.commit False 0 [.updateDone httpStatus body workflowId key]
  | .idempotencyRelease workflowId key =>
    BreaksOff sqlite.change sqlite.commit False 0 [.deleteIdempotency workflowId key]
  | .begin | .commit | .rollback | .read .. => False

/-! ### Outside a transaction -/

variable {sqlite : Sqlite P} {flags : Flags} {call ops : Nat}

/-- A `DriverError` is raised, and a change of the call is left or published if and only if
`left`. -/
def LeavesIf (call : Nat) (left : Prop) (raised : Raised DriverError) (s : Connection P) : Prop :=
  (∃ error, raised = .driver error) ∧ (s.Holds call ∨ s.Shows call ↔ left)

/-- The method returns only if not `left`; if it raises, a change of the call is left or published
if and only if `left`. -/
def Leaves (flags : Flags) (call : Nat) (m : Method P α) (left : Prop) : Prop :=
  Triple (At flags call 0 False False) m (fun _ _ => ¬left) (LeavesIf call left)

/-- What is left of the call, whatever is raised. -/
def EndsIf (call : Nat) (left : Prop) (_ : Raised DriverError) (s : Connection P) : Prop :=
  s.Holds call ∨ s.Shows call ↔ left

variable {left shown : Prop} {raised raised' : Raised DriverError} {s : Connection P}
  {m : Method P α} {E : Raised DriverError → Connection P → Prop} {statement : Statement P}

theorem endsIf_of_at (h : At flags call ops left False s) : EndsIf call left raised s := by
  rw [EndsIf, h.held, h.shown, or_false]

variable {handler : SqlError → Method P α} {Pre : Connection P → Prop} {Q : α → Connection P → Prop}
  {β : Type} {count : Nat} {key : String}

/-- A `try` whose handler raises. -/
theorem triple_catching {E' : Raised DriverError → Connection P → Prop} (hm : Triple Pre m Q E)
    (hsql : ∀ x, Triple (E (.sql x)) (handler x) Q E')
    (hdriver : ∀ error s, E (.driver error) s → E' (.driver error) s) :
    Triple Pre (catching m handler) Q E' := by
  apply Triple.tryCatch hm
  intro raised
  cases raised with
  | sql x => exact hsql x
  | driver error => exact Triple.throw fun s hs => hdriver error s hs

theorem triple_raising {error : DriverError} (h : ∀ s, Pre s → E (.driver error) s) :
    Triple Pre (raising error : Method P α) Q E :=
  Triple.throw h

/-- Outside a transaction, none is begun. -/
theorem triple_ensureSqlTransaction {held : Prop} (hflags : flags.inTransaction = false) :
    Triple (At flags call ops held shown) (ensureSqlTransaction sqlite)
      (fun _ => At flags call ops held shown) E := by
  apply Triple.bind (Q := fun s t => s.flags = flags ∧ At flags call ops held shown t)
  · exact Triple.get fun s hs => ⟨hs.kept, hs⟩
  · intro s
    apply Triple.assume
    intro hs
    rw [if_neg]
    · exact Triple.pure fun _ ht => ht
    · rw [hs, hflags]
      rintro ⟨h, -⟩
      cases h

/-- Outside a transaction, a write is committed at its end. -/
theorem commits_endWrite (hflags : flags.inTransaction = false) :
    Commits sqlite.commit flags call (endWrite sqlite) := by
  intro ops held
  apply Triple.bind (Q := fun s t => s.flags = flags ∧ At flags call ops held False t)
  · exact Triple.get fun s hs => ⟨hs.kept, hs⟩
  · intro s
    apply Triple.assume
    intro hs
    rw [if_pos (by rw [hs, hflags])]
    exact (triple_commit sqlite.commit).mono (fun _ h => h) (fun _ _ h => h.1) fun _ _ h => h

theorem commits_commit : Commits sqlite.commit flags call (commit sqlite.commit : Method P Unit) :=
  fun _ _ => (triple_commit sqlite.commit).mono (fun _ h => h) (fun _ _ h => h.1) fun _ _ h => h

/-- A `try` whose handler raises a `DriverError`. -/
theorem leaves_catching
    (hm : Triple (At flags call 0 False False) m (fun _ _ => ¬left) (EndsIf call left))
    (hhandler : ∀ x, ∃ error, handler x = raising error) :
    Leaves flags call (catching m handler) left := by
  apply triple_catching hm
  · intro x
    obtain ⟨error, herror⟩ := hhandler x
    rw [herror]
    exact triple_raising fun s hs => ⟨⟨error, rfl⟩, hs⟩
  · exact fun error s hs => ⟨⟨error, rfl⟩, hs⟩

section

variable (hflags : flags.inTransaction = false)
include hflags

/-- A row of statements outside a transaction, and the commit. -/
theorem triple_writes (statements : List (Statement P)) (ops : Nat) :
    Triple (At flags call ops False False) (do
        ensureSqlTransaction sqlite
        changeAll sqlite.change statements
        endWrite sqlite)
      (fun _ _ => ¬BreaksOff sqlite.change sqlite.commit False ops statements)
      (EndsIf call (BreaksOff sqlite.change sqlite.commit False ops statements)) := by
  have hlast : Commits sqlite.commit flags call (endWrite sqlite) := commits_endWrite hflags
  have hwrites := triple_changeAll sqlite.change hlast statements ops False
  apply Triple.bind (triple_ensureSqlTransaction hflags)
  intro _
  apply hwrites.mono (fun _ h => h) fun _ _ h => h
  rintro raised s ⟨-, ops, hs⟩
  exact endsIf_of_at hs

/-! ### Methods -/

theorem leaves_seed (rows : List (String × String × P)) :
    Leaves flags call (seed sqlite rows) (BreaksOff sqlite.change sqlite.commit False 0
      (rows.map fun row => .insertIfAbsent row.1 row.2.1 row.2.2)) :=
  leaves_catching (triple_writes hflags _ 0) fun _ => ⟨_, rfl⟩

theorem leaves_create (entity key : String) (encoded : P) :
    Leaves flags call (create sqlite entity key encoded)
      (BreaksOff sqlite.change sqlite.commit False 0 [.insertRow entity key encoded]) := by
  apply leaves_catching (triple_writes hflags _ 0)
  intro x
  cases x.integrity with
  | true => exact ⟨_, if_pos rfl⟩
  | false => exact ⟨_, if_neg (by decide)⟩

theorem leaves_delete (entity key : String) :
    Leaves flags call (delete sqlite entity key)
      (BreaksOff sqlite.change sqlite.commit False 0 [.deleteRow entity key]) :=
  leaves_catching (triple_writes hflags _ 0) fun _ => ⟨_, rfl⟩

theorem leaves_recordEmission (emission : Emission P) (now : Int) :
    Leaves flags call (recordEmission sqlite emission now)
      (BreaksOff sqlite.change sqlite.commit False 0 [.insertOutbox emission now]) :=
  leaves_catching (triple_writes hflags _ 0) fun _ => ⟨_, rfl⟩

end

/-- A condition that the answer of an earlier SELECT is part of. -/
theorem exists_found_iff {answer : Except SqlError β} {found : β} {left : β → Prop}
    (h : answer = .ok found) : (∃ other, answer = .ok other ∧ left other) ↔ left found := by
  constructor
  · rintro ⟨other, hother, hleft⟩
    rw [h] at hother
    rw [Except.ok.inj hother]
    exact hleft
  · intro hleft
    exact ⟨found, h, hleft⟩

/-- Where the SELECT fails, nothing is left. -/
theorem endsIf_of_failed {answers : Answers β} {left : β → Prop}
    (h : Failed answers flags call ops False False raised s) :
    EndsIf call (∃ found, answers ops = .ok found ∧ left found) raised' s := by
  obtain ⟨x, -, hx, hs⟩ := h
  rw [EndsIf, hs.held, hs.shown]
  constructor
  · rintro (⟨hfalse, -⟩ | hfalse)
    · exact hfalse.elim
    · exact hfalse.elim
  · rintro ⟨found, hfound, -⟩
    rw [hx] at hfound
    cases hfound

theorem leaves_update (hflags : flags.inTransaction = false) (entity key : String) (encoded : P) :
    Leaves flags call (update sqlite entity key encoded)
      (∃ found, sqlite.selectRow entity key 0 = .ok found ∧
        BreaksOff sqlite.change sqlite.commit False 1
          [.updateRow ((found.map Prod.fst).getD encoded) entity key]) := by
  refine leaves_catching ?_ fun _ => ⟨_, rfl⟩
  have hread : Triple (At flags call 0 False False) (read sqlite entity key)
      (fun found s => sqlite.selectRow entity key 0 = .ok found ∧ At flags call 1 False False s)
      (EndsIf call (∃ found, sqlite.selectRow entity key 0 = .ok found ∧
        BreaksOff sqlite.change sqlite.commit False 1
          [.updateRow ((found.map Prod.fst).getD encoded) entity key])) := by
    apply triple_catching (triple_operation _)
    · intro x
      exact triple_raising fun s hs => endsIf_of_failed hs
    · exact fun error s hs => endsIf_of_failed hs
  apply Triple.bind hread
  intro found
  apply Triple.assume
  intro hfound
  rw [exists_found_iff hfound]
  exact triple_writes hflags _ 1

/-- One statement breaks off where its commit fails after it has changed a row. -/
theorem breaksOff_one (h : sqlite.change statement ops = .ok count) :
    BreaksOff sqlite.change sqlite.commit False ops [statement] ↔
      0 < count ∧ ∃ x, sqlite.commit (ops + 1) = .error x ∧ x.rolledBack = false := by
  simp only [BreaksOff, false_and, false_or]
  constructor
  · rintro ⟨count', hcount, hleft⟩
    rw [h] at hcount
    rw [Except.ok.inj hcount]
    exact hleft
  · intro hleft
    exact ⟨count, h, hleft⟩

/-- Where the one statement fails, nothing is left. -/
theorem endsIf_of_change_failed
    (h : Failed (sqlite.change statement) flags call ops False False raised s) :
    EndsIf call (BreaksOff sqlite.change sqlite.commit False ops [statement]) raised' s := by
  obtain ⟨x, -, hx, hs⟩ := h
  rw [EndsIf, hs.held, hs.shown]
  simp only [BreaksOff, false_and, false_or]
  constructor
  · exact fun hfalse => hfalse.elim
  · rintro ⟨count, hcount, -⟩
    rw [hx] at hcount
    cases hcount

theorem triple_change_one (statement : Statement P) :
    Triple (At flags call ops False False) (change (sqlite.change statement) statement)
      (fun count s => sqlite.change statement ops = .ok count ∧
        At flags call (ops + 1) (0 < count) False s)
      (EndsIf call (BreaksOff sqlite.change sqlite.commit False ops [statement])) := by
  apply (triple_change (sqlite.change statement) statement).mono (fun _ h => h)
  · rintro count s ⟨hcount, hs⟩
    rw [false_or] at hs
    exact ⟨hcount, hs⟩
  · exact fun raised s hs => endsIf_of_change_failed hs

/-- The commit of one statement. -/
theorem triple_commit_one {last : Method P Unit} (hlast : Commits sqlite.commit flags call last)
    (h : sqlite.change statement ops = .ok count) :
    Triple (At flags call (ops + 1) (0 < count) False) last
      (fun _ _ => ¬BreaksOff sqlite.change sqlite.commit False ops [statement])
      (EndsIf call (BreaksOff sqlite.change sqlite.commit False ops [statement])) := by
  rw [breaksOff_one h]
  apply (hlast (ops + 1) (0 < count)).mono (fun _ h => h)
  · rintro _ s hcommit ⟨-, x, hx, -⟩
    rw [hcommit] at hx
    cases hx
  · rintro raised s ⟨x, -, hx, hs⟩
    rw [EndsIf, hs.held, hs.shown, or_false]
    constructor
    · rintro ⟨hcount, hrolled⟩
      exact ⟨hcount, x, hx, hrolled⟩
    · rintro ⟨hcount, y, hy, hrolled⟩
      rw [hx] at hy
      rw [Except.error.inj hy]
      exact ⟨hcount, hrolled⟩

/-- A conflict is raised with nothing left. -/
theorem triple_conflict (hflags : flags.inTransaction = false) {entity : String} (h : ¬left) :
    Triple (At flags call ops False False) (do
        let s ← get
        if s.flags.inTransaction = false then rollback sqlite.rollback
        raising (.writeConflict entity key) : Method P Unit)
      (fun _ _ => ¬left) (EndsIf call left) := by
  have hnothing : ∀ raised : Raised DriverError, ∀ ops, ∀ s : Connection P,
      At flags call ops False False s → EndsIf call left raised s := by
    intro raised ops s hs
    rw [EndsIf, hs.held, hs.shown, or_false]
    exact ⟨False.elim, h⟩
  apply Triple.bind (Q := fun s t => s.flags = flags ∧ At flags call ops False False t)
  · exact Triple.get fun s hs => ⟨hs.kept, hs⟩
  · intro s
    apply Triple.assume
    intro hs
    rw [if_pos (by rw [hs, hflags])]
    apply Triple.bind (Q := fun _ t => At flags call (ops + 1) False False t)
    · apply (triple_rollback sqlite.rollback).mono (fun _ h => h) fun _ _ h => h.2
      rintro raised t ⟨x, -, -, ht⟩
      rw [false_and] at ht
      exact hnothing _ _ _ ht
    · intro _
      exact triple_raising fun t ht => hnothing _ _ _ ht

theorem leaves_persist (hflags : flags.inTransaction = false) (entity key : String) (payload : P)
    (version : Option Nat) : Leaves flags call (persist sqlite entity key payload version)
      (Interrupted sqlite (.persist entity key payload version)) := by
  refine leaves_catching ?_ fun _ => ⟨_, rfl⟩
  cases version with
  | none => exact triple_writes hflags _ 0
  | some version =>
    apply Triple.bind (triple_ensureSqlTransaction hflags)
    intro _
    apply Triple.bind (triple_change_one (.updateRowVersioned payload entity key version))
    intro count
    apply Triple.assume
    intro hcount
    apply Triple.ite
    · intro hzero
      have hleft : ¬Interrupted sqlite (.persist entity key payload (some version)) := by
        rw [Interrupted, breaksOff_one hcount, hzero]
        rintro ⟨hpos, -⟩
        exact absurd hpos (Nat.lt_irrefl 0)
      rw [hzero]
      exact (triple_conflict hflags hleft).mono (fun s hs => by simpa using hs)
        (fun _ _ h => h) fun _ _ h => h
    · intro _
      exact triple_commit_one (commits_endWrite hflags) hcount

/-- The sequence numbers are all found, or some are reported. -/
theorem triple_missingSeqs (seqs : List Nat) : ∀ ops,
    Triple (At flags call ops False False) (missingSeqs sqlite seqs)
      (fun missing s => (missing = [] ↔ AllFound sqlite ops seqs) ∧
        At flags call (ops + seqs.length) False False s)
      (fun _ s => ¬AllFound sqlite ops seqs ∧ ¬s.Holds call ∧ ¬s.Shows call) := by
  induction seqs with
  | nil => exact fun ops => Triple.pure fun s hs => ⟨⟨fun _ => trivial, fun _ => rfl⟩, hs⟩
  | cons seq seqs ih =>
    intro ops
    have hselect : Triple (At flags call ops False False)
        (operation (sqlite.selectOutboxSeq seq) : Method P Bool)
        (fun found s => sqlite.selectOutboxSeq seq ops = .ok found ∧
          At flags call (ops + 1) False False s)
        (fun _ s => ¬AllFound sqlite ops (seq :: seqs) ∧ ¬s.Holds call ∧ ¬s.Shows call) := by
      apply (triple_operation _).mono (fun _ h => h) fun _ _ h => h
      rintro raised s ⟨x, -, hx, hs⟩
      refine ⟨?_, ?_, hs.shown.mp⟩
      · rintro ⟨hfound, -⟩
        rw [hx] at hfound
        cases hfound
      · exact fun hheld => (hs.held.mp hheld).1
    apply Triple.bind hselect
    intro found
    apply Triple.assume
    intro hfound
    have hrest := (ih (ops + 1)).mono (fun _ h => h) (fun _ _ h => h)
      (fun (_ : Raised DriverError) (s : Connection P)
        (h : ¬AllFound sqlite (ops + 1) seqs ∧ ¬s.Holds call ∧ ¬s.Shows call) =>
          show ¬AllFound sqlite ops (seq :: seqs) ∧ ¬s.Holds call ∧ ¬s.Shows call from
            ⟨fun hall => h.1 hall.2, h.2⟩)
    apply Triple.bind hrest
    intro missing
    apply Triple.pure
    rintro s ⟨hmissing, hs⟩
    rw [List.length_cons, Nat.add_comm seqs.length 1, ← Nat.add_assoc]
    refine ⟨?_, hs⟩
    rw [AllFound, hfound]
    cases found with
    | true =>
      rw [if_pos rfl, hmissing]
      exact ⟨fun h => ⟨rfl, h⟩, fun h => h.2⟩
    | false =>
      rw [if_neg (by decide)]
      constructor
      · exact fun h => absurd h (List.cons_ne_nil _ _)
      · exact fun h => absurd (Except.ok.inj h.1) (by decide)

theorem leaves_ackOutbox (seqs : List Nat) (now : Int) :
    Leaves flags call (ackOutbox sqlite seqs now)
      (Interrupted sqlite (.ackOutbox seqs now)) := by
  refine leaves_catching ?_ fun _ => ⟨_, rfl⟩
  have hnothing : ∀ raised : Raised DriverError, ∀ s : Connection P,
      ¬AllFound sqlite 0 seqs → ¬s.Holds call → ¬s.Shows call →
        EndsIf call (Interrupted sqlite (.ackOutbox seqs now)) raised s := by
    intro raised s hall hheld hshown
    constructor
    · rintro (h | h)
      · exact absurd h hheld
      · exact absurd h hshown
    · exact fun h => absurd h.1 hall
  apply Triple.bind ((triple_missingSeqs seqs 0).mono (fun _ h => h) (fun _ _ h => h)
    fun raised s h => hnothing raised s h.1 h.2.1 h.2.2)
  intro missing
  apply Triple.assume
  intro hmissing
  apply Triple.ite
  · intro hne
    apply triple_raising
    intro s hs
    exact hnothing _ s (fun hall => hne (hmissing.mpr hall)) hs.held.mp hs.shown.mp
  · intro heq
    have hall := hmissing.mp (not_not.mp heq)
    have hiff : Interrupted sqlite (.ackOutbox seqs now) ↔
        BreaksOff sqlite.change sqlite.commit False (0 + seqs.length)
          (seqs.map fun seq => .markDelivered now seq) := by
      rw [Nat.zero_add]
      exact ⟨fun h => h.2, fun h => ⟨hall, h⟩⟩
    rw [hiff]
    apply (triple_changeAll sqlite.change commits_commit _ _ _).mono (fun _ h => h)
      fun _ _ h => h
    rintro raised s ⟨-, ops, hs⟩
    exact endsIf_of_at hs

/-! ### The idempotency methods -/

/-- How a statement that is committed at once fails. -/
def FailedAtOnce (sqlite : Sqlite P) (statement : Statement P) (flags : Flags) (call ops : Nat)
    (shown : Prop) (raised : Raised DriverError) (s : Connection P) : Prop :=
  ∃ x, raised = .sql x ∧
    (sqlite.change statement ops = .error x ∧ At flags call (ops + 1) False shown s ∨
      ∃ count, sqlite.change statement ops = .ok count ∧ sqlite.commit (ops + 1) = .error x ∧
        At flags call (ops + 2) (0 < count ∧ x.rolledBack = false) shown s)

/-- A statement that was committed at once, or failed with nothing left but what its commit could
not publish. -/
theorem triple_changeAtOnce (statement : Statement P) :
    Triple (At flags call ops False shown) (changeAtOnce sqlite statement)
      (fun _ s => ∃ count, sqlite.change statement ops = .ok count ∧
        sqlite.commit (ops + 1) = .ok () ∧ At flags call (ops + 2) False (shown ∨ 0 < count) s)
      (FailedAtOnce sqlite statement flags call ops shown) := by
  have hchange : Triple (At flags call ops False shown)
      (change (sqlite.change statement) statement : Method P Nat)
      (fun count s => sqlite.change statement ops = .ok count ∧
        At flags call (ops + 1) (0 < count) shown s)
      (FailedAtOnce sqlite statement flags call ops shown) := by
    apply (triple_change _ _).mono (fun _ h => h)
    · rintro count s ⟨hcount, hs⟩
      rw [false_or] at hs
      exact ⟨hcount, hs⟩
    · rintro raised s ⟨x, rfl, hx, hs⟩
      rw [false_and] at hs
      exact ⟨x, rfl, Or.inl ⟨hx, hs⟩⟩
  apply Triple.bind hchange
  intro count
  apply Triple.assume
  intro hcount
  apply (triple_commit sqlite.commit).mono (fun _ h => h)
  · rintro _ s ⟨hcommit, hs⟩
    exact ⟨count, hcount, hcommit, hs⟩
  · rintro raised s ⟨x, rfl, hx, hs⟩
    exact ⟨x, rfl, Or.inr ⟨count, hcount, hx, hs⟩⟩

theorem leaves_changeAtOnce (statement : Statement P) {handler : SqlError → Method P Unit}
    (hhandler : ∀ x, ∃ error, handler x = raising error) :
    Leaves flags call (catching (changeAtOnce sqlite statement) handler)
      (BreaksOff sqlite.change sqlite.commit False 0 [statement]) := by
  refine leaves_catching ?_ hhandler
  apply Triple.bind (triple_change_one statement)
  intro count
  apply Triple.assume
  intro hcount
  exact triple_commit_one commits_commit hcount

/-- A claim that was answered `x` fails unless `x` says that the key has a row. -/
theorem claimFails_iff {workflowId : String} {now : Int} {x : SqlError}
    (h : sqlite.change (.insertInProgress key workflowId now) ops = .error x ∨
      ∃ count, sqlite.change (.insertInProgress key workflowId now) ops = .ok count ∧
        sqlite.commit (ops + 1) = .error x) :
    ClaimFails sqlite workflowId key now ops ↔ x.integrity = false := by
  constructor
  · rintro (⟨y, hy, hintegrity⟩ | ⟨count, y, hcount, hy, hintegrity⟩)
    · rcases h with hx | ⟨count', hcount', -⟩
      · rw [hx] at hy
        rw [Except.error.inj hy]
        exact hintegrity
      · rw [hcount'] at hy
        cases hy
    · rcases h with hx | ⟨count', -, hx⟩
      · rw [hx] at hcount
        cases hcount
      · rw [hx] at hy
        rw [Except.error.inj hy]
        exact hintegrity
  · intro hintegrity
    rcases h with hx | ⟨count, hcount, hx⟩
    · exact Or.inl ⟨x, hx, hintegrity⟩
    · exact Or.inr ⟨count, x, hcount, hx, hintegrity⟩

section

variable (workflowId key : String)
include workflowId

/-- The claim returns only if it does not fail, and raises only if it does; then nothing is left but
a claim whose commit failed. -/
theorem triple_claimKey (now : Int) :
    Triple (At flags call ops False shown) (claimKey sqlite workflowId key now)
      (fun _ _ => ¬ClaimFails sqlite workflowId key now ops)
      (fun raised s => (∃ error, raised = .driver error) ∧
        ClaimFails sqlite workflowId key now ops ∧
        (s.Holds call ↔ ClaimInterrupted sqlite workflowId key now ops) ∧
        (s.Shows call ↔ shown)) := by
  have hclaim : Triple (At flags call ops False shown)
      (changeAtOnce sqlite (.insertInProgress key workflowId now)) _
      (FailedAtOnce sqlite (.insertInProgress key workflowId now) flags call ops shown) :=
    triple_changeAtOnce _
  have hbody := Triple.bind (R := fun (_ : Idempotency.Answer P) (_ : Connection P) =>
    ¬ClaimFails sqlite workflowId key now ops) hclaim
    (f := fun _ => (pure .started : Method P (Idempotency.Answer P))) fun _ => Triple.pure ?_
  · apply triple_catching hbody
    · rintro x s ⟨y, hy, hfailed⟩
      obtain rfl := Raised.sql.inj hy
      have hfails : ClaimFails sqlite workflowId key now ops ↔ x.integrity = false :=
        claimFails_iff (hfailed.imp (fun h => h.1) fun ⟨count, hcount, hx, _⟩ =>
          ⟨count, hcount, hx⟩)
      cases hintegrity : x.integrity with
      | true =>
        rw [hintegrity] at hfails
        exact fun h => absurd (hfails.mp h) (by decide)
      | false =>
        refine ⟨⟨_, rfl⟩, hfails.mpr hintegrity, ?_⟩
        rcases hfailed with ⟨hx, hs⟩ | ⟨count, hcount, hx, hs⟩
        · refine ⟨?_, hs.shown⟩
          rw [hs.held]
          constructor
          · exact False.elim
          · rintro ⟨count, y, hcount, -⟩
            rw [hx] at hcount
            cases hcount
        · refine ⟨?_, hs.shown⟩
          rw [hs.held]
          constructor
          · rintro ⟨hpos, hrolled⟩
            exact ⟨count, x, hcount, hpos, hx, hrolled, hintegrity⟩
          · rintro ⟨count', y, hcount', hpos, hy, hrolled, -⟩
            rw [hcount] at hcount'
            rw [hx] at hy
            rw [Except.ok.inj hcount', Except.error.inj hy]
            exact ⟨hpos, hrolled⟩
    · rintro error s ⟨y, hy, -⟩
      cases hy
  · rintro s ⟨count, hcount, hcommit, -⟩ hfails
    rcases hfails with ⟨x, hx, -⟩ | ⟨count', x, -, hx, -⟩
    · rw [hx] at hcount
      cases hcount
    · rw [hx] at hcommit
      cases hcommit

/-- The claim, where the call has shown only what an earlier commit of it published. -/
theorem triple_claimKey_leaves (now : Int)
    (hleft : left ↔ shown ∧ ClaimFails sqlite workflowId key now ops ∨
      ClaimInterrupted sqlite workflowId key now ops) :
    Triple (At flags call ops False shown) (claimKey sqlite workflowId key now)
      (fun _ _ => ¬left) (LeavesIf call left) := by
  have hfails : ClaimInterrupted sqlite workflowId key now ops →
      ClaimFails sqlite workflowId key now ops := by
    rintro ⟨count, x, hcount, -, hx, -, hintegrity⟩
    exact Or.inr ⟨count, x, hcount, hx, hintegrity⟩
  apply (triple_claimKey workflowId key now).mono (fun _ h => h)
  · intro _ s hclaimed h
    rcases hleft.mp h with h | h
    · exact hclaimed h.2
    · exact hclaimed (hfails h)
  · rintro raised s ⟨hdriver, hfailed, hheld, hshown⟩
    refine ⟨hdriver, ?_⟩
    rw [hheld, hshown, hleft]
    constructor
    · rintro (h | h)
      · exact Or.inr h
      · exact Or.inl ⟨h, hfailed⟩
    · rintro (h | h)
      · exact Or.inr h.1
      · exact Or.inl h

/-- The removal of an expired claim, and the new one. -/
theorem triple_expired (now : Int) :
    Triple (At flags call 1 False False) (do
        catching (changeAtOnce sqlite (.deleteIdempotency workflowId key))
          fun error => raising (.cannotKey "clear expired idempotency key" key error)
        claimKey sqlite workflowId key now : Method P (Idempotency.Answer P))
      (fun _ _ => ¬ExpiryInterrupted sqlite workflowId key now)
      (LeavesIf call (ExpiryInterrupted sqlite workflowId key now)) := by
  have hremoval : Triple (At flags call 1 False False)
      (catching (changeAtOnce sqlite (.deleteIdempotency workflowId key))
        fun error => raising (.cannotKey "clear expired idempotency key" key error))
      (fun _ s => ∃ count, sqlite.change (.deleteIdempotency workflowId key) 1 = .ok count ∧
        sqlite.commit 2 = .ok () ∧ At flags call 3 False (0 < count) s)
      (LeavesIf call (ExpiryInterrupted sqlite workflowId key now)) := by
    have hclear : Triple (At flags call 1 False False)
        (changeAtOnce sqlite (.deleteIdempotency workflowId key))
        (fun _ s => ∃ count, sqlite.change (.deleteIdempotency workflowId key) 1 = .ok count ∧
          sqlite.commit 2 = .ok () ∧ At flags call 3 False (0 < count) s)
        (FailedAtOnce sqlite (.deleteIdempotency workflowId key) flags call 1 False) := by
      apply (triple_changeAtOnce _).mono (fun _ h => h) _ fun _ _ h => h
      rintro _ s ⟨count, hcount, hcommit, hs⟩
      rw [false_or] at hs
      exact ⟨count, hcount, hcommit, hs⟩
    apply triple_catching hclear
    · intro x
      apply triple_raising
      rintro s ⟨y, hy, hfailed⟩
      obtain rfl := Raised.sql.inj hy
      refine ⟨⟨_, rfl⟩, ?_⟩
      rcases hfailed with ⟨hx, hs⟩ | ⟨count, hcount, hx, hs⟩
      · rw [hs.held, hs.shown]
        constructor
        · rintro (h | h)
          · exact h.elim
          · exact h.elim
        · rintro (h | ⟨count, hcount, -⟩)
          · rcases h with ⟨hfalse, -⟩ | ⟨count, hcount, -⟩
            · exact hfalse.elim
            · rw [hx] at hcount
              cases hcount
          · rw [hx] at hcount
            cases hcount
      · rw [hs.held, hs.shown, or_false, ExpiryInterrupted, breaksOff_one hcount]
        constructor
        · rintro ⟨hpos, hrolled⟩
          exact Or.inl ⟨hpos, x, hx, hrolled⟩
        · rintro (⟨hpos, y, hy, hrolled⟩ | ⟨count', -, hcommit, -⟩)
          · rw [hx] at hy
            rw [Except.error.inj hy]
            exact ⟨hpos, hrolled⟩
          · rw [hx] at hcommit
            cases hcommit
    · rintro error s ⟨x, hx, -⟩
      cases hx
  apply Triple.bind hremoval
  rintro _ s ⟨count, hcount, hcommit, hs⟩
  refine triple_claimKey_leaves workflowId key now ?_ s hs
  rw [ExpiryInterrupted, breaksOff_one hcount]
  constructor
  · rintro (⟨-, x, hx, -⟩ | ⟨count', hcount', -, h⟩)
    · rw [hcommit] at hx
      cases hx
    · rw [hcount] at hcount'
      rw [Except.ok.inj hcount']
      exact h
  · intro h
    exact Or.inr ⟨count, hcount, hcommit, h⟩

theorem leaves_idempotencyBegin (now ttl : Int) :
    Leaves flags call (idempotencyBegin sqlite workflowId key now ttl)
      (Interrupted sqlite (.idempotencyBegin workflowId key now ttl)) := by
  have hnone : ∀ x, sqlite.selectIdempotency workflowId key 0 = .error x →
      ¬Interrupted sqlite (.idempotencyBegin workflowId key now ttl) := by
    rintro x hx (⟨h, -⟩ | ⟨claim, h, -⟩)
    · rw [hx] at h
      cases h
    · rw [hx] at h
      cases h
  have hselect : Triple (At flags call 0 False False)
      (catching (operation (sqlite.selectIdempotency workflowId key))
        (fun error => raising (.cannotKey "read idempotency key" key error)) :
          Method P (Option (Claim P)))
      (fun row s => sqlite.selectIdempotency workflowId key 0 = .ok row ∧
        At flags call 1 False False s)
      (LeavesIf call (Interrupted sqlite (.idempotencyBegin workflowId key now ttl))) := by
    apply triple_catching (triple_operation _)
    · intro y
      apply triple_raising
      rintro s ⟨x, -, hx, hs⟩
      refine ⟨⟨_, rfl⟩, ?_⟩
      rw [hs.held, hs.shown, or_false]
      exact ⟨fun h => h.1.elim, fun h => absurd h (hnone x hx)⟩
    · rintro error s ⟨x, hx, -⟩
      cases hx
  apply Triple.bind hselect
  intro row
  apply Triple.assume
  intro hrow
  cases row with
  | none =>
    apply triple_claimKey_leaves
    rw [false_and, false_or]
    constructor
    · rintro (⟨-, h⟩ | ⟨claim, hclaim, -⟩)
      · exact h
      · rw [hrow] at hclaim
        cases hclaim
    · exact fun h => Or.inl ⟨hrow, h⟩
  | some claim =>
    have hiff : Interrupted sqlite (.idempotencyBegin workflowId key now ttl) ↔
        ¬now - claim.createdAt < ttl ∧ ExpiryInterrupted sqlite workflowId key now := by
      constructor
      · rintro (⟨h, -⟩ | ⟨claim', hclaim, hexpired⟩)
        · rw [hrow] at h
          cases h
        · rw [hrow] at hclaim
          rw [Option.some.inj (Except.ok.inj hclaim)]
          exact hexpired
      · exact fun h => Or.inr ⟨claim, hrow, h⟩
    rw [hiff]
    apply Triple.ite
    · intro hfresh
      cases claim.status with
      | inProgress => exact Triple.pure fun _ _ h => h.1 hfresh
      | done => exact Triple.pure fun _ _ h => h.1 hfresh
    · intro hexpired
      have hdrop : (¬now - claim.createdAt < ttl ∧ ExpiryInterrupted sqlite workflowId key now) ↔
          ExpiryInterrupted sqlite workflowId key now :=
        ⟨fun h => h.2, fun h => ⟨hexpired, h⟩⟩
      rw [hdrop]
      exact triple_expired workflowId key now

end

/-! ### The calls that change no data -/

theorem endsIf_false {answers : Answers α}
    (h : Failed answers flags call ops False False raised s) :
    EndsIf call False raised' s := by
  obtain ⟨x, -, -, hs⟩ := h
  rw [EndsIf, hs.held, hs.shown, or_false, false_and]

theorem leaves_read (entity key : String) :
    Leaves flags call (Call.run sqlite (.read entity key)) False := by
  have hread : Leaves flags call (read sqlite entity key) False := by
    refine leaves_catching ?_ fun _ => ⟨_, rfl⟩
    exact (triple_operation _).mono (fun _ h => h) (fun _ _ _ h => h) fun _ _ h => endsIf_false h
  apply Triple.bind hread
  intro _
  exact Triple.pure fun _ h => h

theorem leaves_begin : Leaves flags call (Call.run sqlite .begin) False := by
  apply Triple.bind (Q := fun _ t => At flags call 0 False False t)
  · exact Triple.get fun s hs => hs
  · intro s
    apply Triple.ite
    · intro _
      apply triple_raising
      intro t ht
      have hends : EndsIf call False (.driver .alreadyOpen) t := endsIf_of_at ht
      exact ⟨⟨_, rfl⟩, hends⟩
    · intro _
      exact Triple.modify fun _ _ h => h

theorem leaves_closing (h : Leaves flags call m left) : Leaves flags call (closing m) left := by
  intro s hs
  have hm := h s hs
  unfold closing
  cases hrun : m s with
  | ok a t =>
    rw [hrun] at hm
    exact hm
  | error raised t =>
    rw [hrun] at hm
    exact hm

/-- An operation that is issued only in a transaction. -/
theorem triple_whenOpen {m : Method P Unit} {answers : Answers Unit} {Q : Connection P → Prop}
    (hm : Triple (At flags call 0 False False) m (fun _ => Q)
      (Failed answers flags call 0 False False)) :
    Triple (At flags call 0 False False) (do
        let s ← get
        if s.flags.sqlTransactionOpen = true then m)
      (fun _ _ => ¬False) (EndsIf call False) := by
  apply Triple.bind (Q := fun _ t => At flags call 0 False False t)
  · exact Triple.get fun s hs => hs
  · intro s
    apply Triple.ite
    · intro _
      exact hm.mono (fun _ h => h) (fun _ _ _ h => h) fun _ _ h => endsIf_false h
    · intro _
      exact Triple.pure fun _ _ h => h

theorem leaves_commit : Leaves flags call (Call.run sqlite .commit) False :=
  leaves_closing (leaves_catching (triple_whenOpen (triple_commit _)) fun _ => ⟨_, rfl⟩)

theorem leaves_rollback : Leaves flags call (Call.run sqlite .rollback) False :=
  leaves_closing (leaves_catching (triple_whenOpen (triple_rollback _)) fun _ => ⟨_, rfl⟩)

/-- **A call outside a transaction** returns only if it is not interrupted; if it raises, a change
of it is left or published if and only if it is interrupted. -/
theorem leaves_call (hflags : flags.inTransaction = false) (method : Call P) :
    Leaves flags call (method.run sqlite) (Interrupted sqlite method) := by
  cases method with
  | seed rows => exact leaves_seed hflags rows
  | begin => exact leaves_begin
  | commit => exact leaves_commit
  | rollback => exact leaves_rollback
  | read entity key => exact leaves_read entity key
  | create entity key encoded => exact leaves_create hflags entity key encoded
  | update entity key encoded => exact leaves_update hflags entity key encoded
  | delete entity key => exact leaves_delete hflags entity key
  | persist entity key payload version => exact leaves_persist hflags entity key payload version
  | recordEmission emission now => exact leaves_recordEmission hflags emission now
  | ackOutbox seqs now => exact leaves_ackOutbox seqs now
  | idempotencyBegin workflowId key now ttl =>
    apply Triple.bind (leaves_idempotencyBegin workflowId key now ttl)
    intro _
    exact Triple.pure fun _ h => h
  | idempotencyFinish workflowId key httpStatus body =>
    exact leaves_changeAtOnce _ fun _ => ⟨_, rfl⟩
  | idempotencyRelease workflowId key => exact leaves_changeAtOnce _ fun _ => ⟨_, rfl⟩

/-! ### Sessions -/

section

variable {R : Nat → Prop} (hcall : R call)

variable {m : Method P α}

theorem keeps_catching {handler : SqlError → Method P α} (hm : Keeps (Among R call) m)
    (hhandler : ∀ x, Keeps (Among R call) (handler x)) :
    Keeps (Among R call) (catching m handler) :=
  triple_catching hm (fun x => hhandler x) fun _ _ h => h

theorem keeps_raising (error : DriverError) :
    Keeps (Among R call) (raising error : Method P α) := Triple.throw fun _ h => h

/-- A `try` whose handler raises. -/
theorem keeps_reported {error : SqlError → DriverError} (hm : Keeps (Among R call) m) :
    Keeps (Among R call) (catching m fun x => raising (error x)) :=
  keeps_catching hm fun _ => keeps_raising _

theorem keeps_modifyFlags (f : Flags → Flags) :
    Keeps (Among R call) (modify fun s => { s with flags := f s.flags } : Method P Unit) :=
  Triple.modify fun _ h => ⟨h.number, h.pending, h.published⟩

theorem keeps_ensureSqlTransaction : Keeps (Among R call) (ensureSqlTransaction sqlite) := by
  apply Triple.bind (Triple.get fun _ h => h)
  intro s
  apply Triple.ite
  · intro _
    apply Triple.bind (keeps_reported (keeps_operation _))
    intro _
    exact keeps_modifyFlags fun flags => { flags with sqlTransactionOpen := true }
  · intro _
    exact Triple.pure fun _ h => h

theorem keeps_endWrite : Keeps (Among R call) (endWrite sqlite) := by
  apply Triple.bind (Triple.get fun _ h => h)
  intro s
  apply Triple.ite
  · exact fun _ => keeps_commit _
  · exact fun _ => Triple.pure fun _ h => h

theorem keeps_missingSeqs (seqs : List Nat) :
    Keeps (Among R call) (missingSeqs sqlite seqs) := by
  induction seqs with
  | nil => exact Triple.pure fun _ h => h
  | cons seq seqs ih =>
    apply Triple.bind (keeps_operation _)
    intro found
    apply Triple.bind ih
    exact fun missing => Triple.pure fun _ h => h

/-- An operation that is issued only in a transaction. -/
theorem keeps_whenOpen {m : Method P Unit} (hm : Keeps (Among R call) m) :
    Keeps (Among R call) (do
      let s ← get
      if s.flags.sqlTransactionOpen = true then m) := by
  apply Triple.bind (Triple.get fun _ h => h)
  intro s
  apply Triple.ite
  · exact fun _ => hm
  · exact fun _ => Triple.pure fun _ h => h

theorem keeps_closing (hm : Keeps (Among R call) m) : Keeps (Among R call) (closing m) := by
  intro s hs
  have hrun := hm s hs
  unfold closing
  cases hresult : m s with
  | ok a t =>
    rw [hresult] at hrun
    exact ⟨hrun.number, hrun.pending, hrun.published⟩
  | error raised t =>
    rw [hresult] at hrun
    exact ⟨hrun.number, hrun.pending, hrun.published⟩

theorem keeps_ignored (hm : Keeps (Among R call) m) : Keeps (Among R call) (do let _ ← m) :=
  Triple.bind hm fun _ => Triple.pure fun _ h => h

include hcall

theorem keeps_writes (statements : List (Statement P)) : Keeps (Among R call) (do
    ensureSqlTransaction sqlite
    changeAll sqlite.change statements
    endWrite sqlite) := by
  apply Triple.bind keeps_ensureSqlTransaction
  intro _
  apply Triple.bind (keeps_changeAll hcall _ _)
  intro _
  exact keeps_endWrite

theorem keeps_persist (entity key : String) (payload : P) (version : Option Nat) :
    Keeps (Among R call) (persist sqlite entity key payload version) := by
  apply keeps_reported
  apply Triple.bind keeps_ensureSqlTransaction
  intro _
  cases version with
  | none =>
    apply Triple.bind (keeps_changeAll hcall _ _)
    intro _
    exact keeps_endWrite
  | some version =>
    apply Triple.bind (keeps_change hcall _ _)
    intro count
    apply Triple.ite
    · intro _
      apply Triple.bind (Triple.get fun _ h => h)
      intro s
      have hraise : Keeps (Among R call) (raising (.writeConflict entity key) : Method P Unit) :=
        keeps_raising _
      apply Triple.ite
      · intro _
        exact Triple.bind (keeps_rollback _) fun _ => hraise
      · exact fun _ => hraise
    · exact fun _ => keeps_endWrite

theorem keeps_ackOutbox (seqs : List Nat) (now : Int) :
    Keeps (Among R call) (ackOutbox sqlite seqs now) := by
  apply keeps_reported
  apply Triple.bind (keeps_missingSeqs seqs)
  intro missing
  apply Triple.ite
  · exact fun _ => keeps_raising _
  · intro _
    apply Triple.bind (keeps_changeAll hcall _ _)
    intro _
    exact keeps_commit _

theorem keeps_changeAtOnce (statement : Statement P) :
    Keeps (Among R call) (changeAtOnce sqlite statement) := by
  apply Triple.bind (keeps_change hcall _ _)
  intro _
  exact keeps_commit _

theorem keeps_claimKey (workflowId key : String) (now : Int) :
    Keeps (Among R call) (claimKey sqlite workflowId key now) := by
  apply keeps_catching
  · apply Triple.bind (keeps_changeAtOnce hcall _)
    exact fun _ => Triple.pure fun _ h => h
  · intro x
    apply Triple.ite
    · exact fun _ => Triple.pure fun _ h => h
    · exact fun _ => keeps_raising _

theorem keeps_idempotencyBegin (workflowId key : String) (now ttl : Int) :
    Keeps (Among R call) (idempotencyBegin sqlite workflowId key now ttl) := by
  apply Triple.bind (keeps_reported (keeps_operation _))
  intro row
  cases row with
  | none => exact keeps_claimKey hcall workflowId key now
  | some claim =>
    apply Triple.ite
    · intro _
      cases claim.status with
      | inProgress => exact Triple.pure fun _ h => h
      | done => exact Triple.pure fun _ h => h
    · intro _
      apply Triple.bind (keeps_reported (keeps_changeAtOnce hcall _))
      exact fun _ => keeps_claimKey hcall workflowId key now

/-- A call leaves the changes of the other calls, whatever its own number is. -/
theorem keeps_call (method : Call P) : Keeps (Among R call) (method.run sqlite) := by
  cases method with
  | seed rows => exact keeps_reported (keeps_writes hcall _)
  | begin =>
    apply Triple.bind (Triple.get fun _ h => h)
    intro s
    apply Triple.ite
    · exact fun _ => keeps_raising _
    · exact fun _ => keeps_modifyFlags fun flags => { flags with inTransaction := true }
  | commit => exact keeps_closing (keeps_reported (keeps_whenOpen (keeps_commit _)))
  | rollback => exact keeps_closing (keeps_reported (keeps_whenOpen (keeps_rollback _)))
  | read entity key => exact keeps_ignored (keeps_reported (keeps_operation _))
  | create entity key encoded =>
    apply keeps_catching (keeps_writes hcall _)
    intro x
    apply Triple.ite
    · exact fun _ => keeps_raising _
    · exact fun _ => keeps_raising _
  | update entity key encoded =>
    apply keeps_reported
    apply Triple.bind (keeps_reported (keeps_operation _))
    exact fun current => keeps_writes hcall _
  | delete entity key => exact keeps_reported (keeps_writes hcall _)
  | persist entity key payload version => exact keeps_persist hcall entity key payload version
  | recordEmission emission now => exact keeps_reported (keeps_writes hcall _)
  | ackOutbox seqs now => exact keeps_ackOutbox hcall seqs now
  | idempotencyBegin workflowId key now ttl =>
    exact keeps_ignored (keeps_idempotencyBegin hcall workflowId key now ttl)
  | idempotencyFinish workflowId key httpStatus body =>
    exact keeps_reported (keeps_changeAtOnce hcall _)
  | idempotencyRelease workflowId key => exact keeps_reported (keeps_changeAtOnce hcall _)

end

/-- The calls made are counted, and every change has the number of one of them. -/
theorem among_after {R : Nat → Prop} {call : Nat} (hcall : R call) (hs : Among R call s)
    (a : Attempt P) : Among R (call + 1) (a.after s) := by
  have hstart : Among R call { s with ops := 0 } := ⟨hs.number, hs.pending, hs.published⟩
  have hrun := @keeps_call _ a.sqlite _ _ hcall a.call _ hstart
  rw [Attempt.after, Attempt.run]
  cases hresult : a.call.run a.sqlite { s with ops := 0 } with
  | ok value t =>
    rw [hresult] at hrun
    exact ⟨congrArg (· + 1) hrun.number, hrun.pending, hrun.published⟩
  | error raised t =>
    rw [hresult] at hrun
    exact ⟨congrArg (· + 1) hrun.number, hrun.pending, hrun.published⟩

/-- Calls in a row. -/
theorem among_foldl {R : Nat → Prop} (attempts : List (Attempt P)) :
    ∀ {call : Nat} {s : Connection P}, (∀ i < attempts.length, R (call + i)) → Among R call s →
      Among R (call + attempts.length) (attempts.foldl (fun s a => a.after s) s) := by
  induction attempts with
  | nil => exact fun _ hs => hs
  | cons a attempts ih =>
    intro call s hR hs
    have hcall : R call := hR 0 (Nat.succ_pos _)
    have hrest : ∀ i < attempts.length, R (call + 1 + i) := by
      intro i hi
      have h := hR (i + 1) (Nat.succ_lt_succ hi)
      rwa [Nat.add_comm i 1, ← Nat.add_assoc] at h
    have hafter := ih hrest (among_after hcall hs a)
    rw [List.length_cons, Nat.add_comm attempts.length 1, ← Nat.add_assoc]
    exact hafter

theorem among_session (attempts : List (Attempt P)) :
    Among (· < attempts.length) attempts.length (session attempts) := by
  have hstart : Among (· < attempts.length) 0 ({ flags := {} } : Connection P) :=
    ⟨rfl, fun _ h => absurd h List.not_mem_nil, fun _ h => absurd h List.not_mem_nil⟩
  have hR : ∀ i < attempts.length, 0 + i < attempts.length := by
    intro i hi
    rwa [Nat.zero_add]
  have hend := among_foldl attempts hR hstart
  rw [Nat.zero_add] at hend
  exact hend

/-- The connection, as the next call finds it. -/
theorem at_session (before : List (Attempt P)) :
    At (session before).flags before.length 0 False False { session before with ops := 0 } := by
  have hamong := among_session before
  refine ⟨rfl, hamong.number, rfl, ?_, ?_⟩
  · constructor
    · rintro ⟨x, hx, hcall⟩
      have hlt := hamong.pending x hx
      rw [hcall] at hlt
      exact absurd hlt (Nat.lt_irrefl _)
    · exact False.elim
  · constructor
    · rintro ⟨x, hx, hcall⟩
      have hlt := hamong.published x hx
      rw [hcall] at hlt
      exact absurd hlt (Nat.lt_irrefl _)
    · exact False.elim

theorem session_append (before later : List (Attempt P)) (a : Attempt P) :
    session (before ++ a :: later) =
      later.foldl (fun s a => a.after s) (a.after (session before)) := by
  rw [session, List.foldl_append, List.foldl_cons, ← session]

/-! ### A later call -/

/-- A release of a key of the store, to which sqlite answers without an error. -/
def calmRelease : Attempt P where
  sqlite :=
    { change := fun _ _ => .ok 0
      selectRow := fun _ _ _ => .ok none
      selectOutboxSeq := fun _ _ => .ok true
      selectIdempotency := fun _ _ _ => .ok none
      begin := fun _ => .ok ()
      commit := fun _ => .ok ()
      rollback := fun _ => .ok () }
  call := .idempotencyRelease "Checkout" "k-1"

/-- It publishes what the transaction of an earlier call holds. -/
theorem published_calmRelease (s : Connection P) :
    (calmRelease.after s).published = s.published ++ s.pending := rfl

/-! ### Atomic calls -/

theorem not_shows_of_not_left {before : List (Attempt P)} {a : Attempt P} {call : Nat}
    (hamong : Among (· < call + 1) (call + 1) (a.after (session before)))
    (hlength : call = before.length)
    (hheld : ¬(a.after (session before)).Holds call)
    (hshown : ¬(a.after (session before)).Shows call) (later : List (Attempt P)) :
    ¬(session (before ++ a :: later)).Shows call := by
  subst hlength
  have hothers : Among (· ≠ before.length) (before.length + 1) (a.after (session before)) := by
    refine ⟨hamong.number, ?_, ?_⟩
    · exact fun x hx hcall => hheld ⟨x, hx, hcall⟩
    · exact fun x hx hcall => hshown ⟨x, hx, hcall⟩
  have hR : ∀ i < later.length, before.length + 1 + i ≠ before.length := by
    intro i _
    omega
  have hend := among_foldl later hR hothers
  rw [session_append]
  rintro ⟨x, hx, hcall⟩
  exact hend.published x hx hcall

/-- **A call made outside a workflow's transaction is atomic** if and only if it is not interrupted:
a change that an error finds made and not rolled back is committed by a later call. -/
theorem atomic_iff (before : List (Attempt P)) (a : Attempt P)
    (houtside : (session before).flags.inTransaction = false) :
    a.Atomic before ↔ ¬Interrupted a.sqlite a.call := by
  have hleaves := @leaves_call _ a.sqlite _ _ houtside a.call _ (at_session before)
  have hearlier : Among (· < before.length + 1) before.length (session before) := by
    have hsession := among_session before
    refine ⟨hsession.number, ?_, ?_⟩
    · exact fun x hx => Nat.lt_succ_of_lt (hsession.pending x hx)
    · exact fun x hx => Nat.lt_succ_of_lt (hsession.published x hx)
  have hamong := among_after (R := (· < before.length + 1)) (Nat.lt_succ_self _) hearlier a
  cases hresult : a.call.run a.sqlite { session before with ops := 0 } with
  | ok value t =>
    rw [hresult] at hleaves
    have hraises : ¬a.Raises (session before) := by
      rintro ⟨error, u, hrun⟩
      rw [Attempt.run, hresult] at hrun
      cases hrun
    exact ⟨fun _ => hleaves, fun _ h => absurd h hraises⟩
  | error raised t =>
    rw [hresult] at hleaves
    obtain ⟨⟨error, rfl⟩, hleft⟩ := hleaves
    have hafter : a.after (session before) = { t with calls := t.calls + 1 } := by
      rw [Attempt.after, Attempt.run, hresult]
    have hraises : a.Raises (session before) := ⟨error, t, hresult⟩
    rw [← hleft]
    constructor
    · intro hatomic
      rintro (hheld | hshown)
      · apply hatomic hraises [calmRelease]
        rw [session_append, List.foldl_cons, List.foldl_nil, hafter]
        obtain ⟨x, hx, hcall⟩ := hheld
        refine ⟨x, ?_, hcall⟩
        rw [published_calmRelease]
        exact List.mem_append_right _ hx
      · apply hatomic hraises []
        rw [session_append, List.foldl_nil, hafter]
        exact hshown
    · intro hnone _ later
      apply not_shows_of_not_left hamong rfl
      · rw [hafter]
        exact fun h => hnone (Or.inl h)
      · rw [hafter]
        exact fun h => hnone (Or.inr h)

/-- A `create` whose row is inserted, and whose commit fails. -/
def busyCreate : Attempt String where
  sqlite :=
    { (calmRelease : Attempt String).sqlite with
      change := fun _ _ => .ok 1
      commit := fun _ => .error { text := "database is locked" } }
  call := .create "Order" "o-1" "\x7b\"id\": \"o-1\"\x7d"

theorem busyCreate_interrupted : Interrupted busyCreate.sqlite busyCreate.call :=
  Or.inr ⟨1, rfl, Or.inr Nat.zero_lt_one, _, rfl, rfl⟩

theorem calmRelease_not_interrupted :
    ¬Interrupted (calmRelease : Attempt String).sqlite calmRelease.call := by
  rintro (⟨hfalse, -⟩ | ⟨count, -, -, x, hx, -⟩)
  · exact hfalse
  · cases hx

theorem atomic_calmRelease_not_busyCreate :
    (calmRelease : Attempt String).Atomic [] ∧ ¬busyCreate.Atomic [] :=
  ⟨(atomic_iff [] calmRelease rfl).mpr calmRelease_not_interrupted,
    fun h => (atomic_iff [] busyCreate rfl).mp h busyCreate_interrupted⟩

/-- The `create` raises, and the row that it was to create is there after the next call. -/
theorem busyCreate_not_atomic : ¬∀ (before : List (Attempt String)) (a : Attempt String),
    (session before).flags.inTransaction = false → a.Atomic before := by
  intro h
  have hraises : busyCreate.Raises (session []) := ⟨_, _, rfl⟩
  apply h [] busyCreate rfl hraises [calmRelease]
  exact ⟨⟨0, .insertRow "Order" "o-1" "\x7b\"id\": \"o-1\"\x7d"⟩, List.mem_cons_self, rfl⟩

end Lnpl.Drivers.WriteCalls
