import Lnpl.Interp.Equiv.RepoInvariant
import Lnpl.Serve.Connection

/-!
# The transaction discipline of a connection

What the calls of the driver leave of its SQL transaction and its flags, whatever the engine
answers.  Between `begin()` and the end of a run the store is as it was (`InRun`), a `commit()` or
`rollback()` that returns leaves the connection idle, and one that raises has cleared the flags of a
SQL transaction that may still be open (`Unflagged`).
-/

namespace Lnpl.Serve

open Lnpl.Interp Lnpl.Lib Lnpl.Drivers.Idempotency

variable {δ β α : Type} {db : Database δ β}

/-! ### The states of a connection -/

/-- No transaction is open. -/
structure Idle (db : Database δ β) (c : Connection δ β) : Prop where
  committed : c.committed = db
  view : c.view = none
  inTransaction : c.inTransaction = false
  sqlTransactionOpen : c.sqlTransactionOpen = false

/-- The transaction of a run is open, and its flags say so. -/
structure InRun (db : Database δ β) (c : Connection δ β) : Prop where
  committed : c.committed = db
  inTransaction : c.inTransaction = true
  flagged : c.view.isSome → c.sqlTransactionOpen = true
  claims : ∀ v, c.view = some v → v.claims = db.claims

/-- The driver knows of no transaction; the SQL transaction may still be open. -/
structure Unflagged (db : Database δ β) (c : Connection δ β) : Prop where
  committed : c.committed = db
  inTransaction : c.inTransaction = false
  sqlTransactionOpen : c.sqlTransactionOpen = false

/-- A run has been committed. -/
def Applied (db : Database δ β) (c : Connection δ β) : Prop :=
  ∃ data, Idle { db with data := data } c

variable {c : Connection δ β}

theorem InRun.visible (h : InRun db c) : c.visible.claims = db.claims := by
  unfold Connection.visible
  cases hview : c.view with
  | none => rw [Option.getD_none, h.committed]
  | some v => exact h.claims v hview

theorem InRun.rolledBack (h : InRun db c) : InRun db { c with view := none } where
  committed := h.committed
  inTransaction := h.inTransaction
  flagged := nofun
  claims := nofun

namespace Connection

/-! ### The engine -/

variable {P E : Connection δ β → Prop} {message : String}

/-- What holds whatever the engine is about to answer. -/
theorem triple_nextAnswer {E : Exc → Connection δ β → Prop}
    (hP : ∀ c answers, P c → P { c with answers := answers }) :
    Triple P nextAnswer (fun _ => P) E := fun c hc => hP c _ hc

theorem triple_orDriverError {Q : α → Connection δ β → Prop} {m : D δ β α}
    (h : Triple P m Q fun _ => E) :
    Triple P (orDriverError message m) Q fun _ => E :=
  Triple.tryCatch h fun _ => Triple.ite (fun _ => Triple.throw fun _ => id) fun _ =>
    Triple.throw fun _ => id

/-- A SELECT keeps what a rollback of the engine keeps. -/
theorem keeps_select {I : Connection δ β → Prop} {f : Database δ β → α}
    (hanswers : ∀ c answers, I c → I { c with answers := answers })
    (hrolled : ∀ c, I c → I { c with view := none }) : Keeps I (select f) := by
  refine Triple.bind (triple_nextAnswer hanswers) fun answer => ?_
  cases answer with
  | done => exact Keeps.get.bind fun _ => Keeps.pure _
  | fails => exact Keeps.throw _
  | failsRolledBack => exact (Keeps.modify hrolled).bind fun _ => Keeps.throw _

/-! ### The row methods -/

theorem keeps_reading (message : String) (f : δ → α) :
    Keeps (InRun db) (RowMethods.reading message f : D δ β α) :=
  triple_orDriverError (keeps_select (fun _ _ h => ⟨h.1, h.2, h.3, h.4⟩) fun _ => InRun.rolledBack)

/-- The SQL transaction of the run is open, or about to be. -/
structure Writing (db : Database δ β) (c : Connection δ β) : Prop extends InRun db c where
  sqlTransactionOpen : c.sqlTransactionOpen = true

theorem triple_ensureSqlTransaction :
    Triple (InRun db) (ensureSqlTransaction : D δ β Unit) (fun _ => Writing db) fun _ => InRun db := by
  refine Triple.bind (Q := fun c c' => c = c' ∧ InRun db c') (Triple.get fun _ h => ⟨rfl, h⟩)
    fun c => Triple.ite (fun hopen => ?_) fun hopen => Triple.pure fun c' hc' => ?_
  · rw [Bool.and_eq_true, Bool.not_eq_true'] at hopen
    refine Triple.bind (Q := fun _ c => c.committed = db ∧ c.inTransaction = true ∧
      ∀ v, c.view = some v → v.claims = db.claims) (triple_orDriverError ?_) fun _ => ?_
    · refine Triple.bind (Q := fun _ => InRun db) (Triple.get fun _ h => h.2) fun c₁ =>
        Triple.check (fun _ _ => id) fun _ => ?_
      refine Triple.bind (triple_nextAnswer fun _ _ h => ⟨h.1, h.2, h.3, h.4⟩) fun answer => ?_
      cases answer with
      | done =>
        refine Triple.modify fun c₂ h => ⟨h.committed, h.inTransaction, fun v hv => ?_⟩
        rw [← Option.some.inj hv, h.committed]
      | fails => exact Triple.throw fun _ => id
      | failsRolledBack => exact Triple.throw fun _ => id
    · exact Triple.modify fun c₂ h => ⟨⟨h.1, h.2.1, fun _ => rfl, h.2.2⟩, rfl⟩
  · refine ⟨hc'.2, ?_⟩
    rw [← hc'.1]
    rw [← hc'.1] at hc'
    rw [hc'.2.inTransaction, Bool.true_and, Bool.not_eq_true, Bool.not_eq_false'] at hopen
    exact hopen

theorem triple_statement_onData (f : δ → Except Exc (α × δ)) :
    Triple (Writing db) (statement (RowMethods.onData f) : D δ β α) (fun _ => InRun db)
      fun _ => InRun db := by
  refine Triple.bind (triple_nextAnswer fun _ _ h => ⟨⟨h.1.1, h.1.2, h.1.3, h.1.4⟩, h.2⟩)
    fun answer => ?_
  cases answer with
  | done =>
    refine Triple.bind (Q := fun seen c => seen.visible.claims = db.claims ∧ Writing db c)
      (Triple.get fun c h => ⟨h.1.visible, h⟩) fun seen => Triple.assume fun hseen => ?_
    refine Triple.bind (Q := fun _ => Writing db) (Triple.modify fun c h => ?_) fun _ => ?_
    · exact ⟨⟨h.1.1, h.1.2, fun _ => h.2, fun v hv => by rw [← Option.some.inj hv, hseen]⟩, h.2⟩
    unfold RowMethods.onData
    cases f seen.visible.data with
    | error e => exact Triple.bind (Q := fun _ _ => False) (Triple.throw fun _ h => h.1) fun _ _ =>
        False.elim
    | ok r =>
      refine Triple.bind (Q := fun p c => p.2.claims = db.claims ∧ Writing db c)
        (Triple.pure fun c h => ⟨hseen, h⟩) fun p => Triple.assume fun hp => ?_
      refine Triple.bind (Q := fun _ => InRun db) (Triple.modify fun c h => ?_) fun _ =>
        Triple.pure fun _ => id
      exact ⟨h.1.1, h.1.2, fun _ => h.2, fun v hv => by rw [← Option.some.inj hv, hp]⟩
  | fails =>
    refine Triple.bind (Q := fun _ => InRun db) (Triple.modify fun c h => ?_) fun _ =>
      Triple.throw fun _ => id
    exact ⟨h.1.1, h.1.2, fun _ => h.2, fun v hv => by rw [← Option.some.inj hv, h.1.visible]⟩
  | failsRolledBack =>
    exact Triple.bind (Q := fun _ => InRun db) (Triple.modify fun c h => h.1.rolledBack) fun _ =>
      Triple.throw fun _ => id

theorem keeps_writing (message : String) (f : δ → Except Exc (α × δ)) :
    Keeps (InRun db) (RowMethods.writing message f : D δ β α) := by
  refine triple_orDriverError (Triple.bind triple_ensureSqlTransaction fun _ =>
    Triple.bind (triple_statement_onData f) fun a => Keeps.bind ?_ fun _ => Keeps.pure a)
  refine Triple.bind (Q := fun c c' => c.inTransaction = true ∧ InRun db c')
    (Triple.get fun c h => ⟨h.inTransaction, h⟩) fun c => Triple.assume fun hc => ?_
  rw [hc]
  exact Keeps.pure ()

theorem rowsKeep_inRun (methods : RowMethods δ) : (methods.repo : Repo (Connection δ β)).RowsKeep (InRun db) where
  execute e op k := by
    cases op with
    | read => exact keeps_reading _ _
    | create => exact keeps_writing _ _
    | update => exact (keeps_reading _ _).bind fun _ => keeps_writing _ _
    | delete => exact keeps_writing _ _
  query e := keeps_reading _ _
  queryPredicate query h e predicate order limit := by
    rw [← Option.some.inj h]
    exact keeps_reading _ _
  persist e k row := by
    refine (keeps_writing _ _).tryCatch fun e => Keeps.ite ?_ (Keeps.throw e)
    refine Triple.bind (Q := fun c c' => c.inTransaction = true ∧ InRun db c')
      (Triple.get fun c h => ⟨h.inTransaction, h⟩) fun c => Triple.assume fun hc => ?_
    rw [hc]
    exact Keeps.throw e
  recordEmission emission := keeps_writing _ _

/-! ### The transaction bracket -/

theorem triple_begin :
    Triple (Idle db) (begin : D δ β Unit) (fun _ => InRun db) fun _ => Idle db := by
  refine Triple.bind (Q := fun _ => Idle db) (Triple.get fun _ => id) fun c =>
    Triple.check (fun _ _ => id) fun _ => Triple.modify fun c₁ h => ?_
  refine ⟨h.committed, rfl, fun hview => ?_, fun v hv => ?_⟩
  · rw [show (_ : Option (Database δ β)) = none from h.view] at hview
    exact nomatch hview
  · exact nomatch h.view.symm.trans hv

/-- A call that closes the transaction of a run, from what the engine does. -/
theorem triple_closeTransaction {Q : Connection δ β → Prop} {m : D δ β Unit}
    (hm : Triple (fun c => InRun db c ∧ c.sqlTransactionOpen = true) m (fun _ c => Q (clearFlags c))
      fun _ c => E (clearFlags c)) (hnone : ∀ c, Idle db (clearFlags c) → Q (clearFlags c)) :
    Triple (InRun db) (closeTransaction message m) (fun _ => Q) fun _ => E := by
  have hclear : Triple (fun c => Q (clearFlags c)) (modify clearFlags : D δ β Unit) (fun _ => Q)
      fun _ => E := Triple.modify fun _ => id
  refine Triple.bind (Q := fun c c' => c = c' ∧ InRun db c') (Triple.get fun c h => ⟨rfl, h⟩)
    fun c => Triple.ite (fun hopen => ?_) fun hopen => ?_
  · refine Triple.bind (Triple.tryCatch (E := fun _ c => E (clearFlags c)) ?_ fun e => ?_) fun _ => hclear
    · refine Triple.mono (triple_orDriverError hm) (fun c' h => ⟨h.2, ?_⟩) (fun _ _ => id) fun _ _ => id
      rw [← h.1]
      exact hopen
    · exact Triple.bind (Q := fun _ => E) (Triple.modify fun _ => id) fun _ => Triple.throw fun _ => id
  · refine hclear.mono (fun c' h => hnone c' ?_) (fun _ _ => id) fun _ _ => id
    rw [h.1] at hopen
    refine ⟨h.2.committed, ?_, rfl, rfl⟩
    -- no flag, no SQL transaction
    cases hview : c'.view with
    | none => exact hview
    | some v => exact absurd (h.2.flagged (by rw [hview]; rfl)) hopen

theorem triple_commit :
    Triple (InRun db) (commit : D δ β Unit) (fun _ => Applied db) fun _ => Unflagged db := by
  refine triple_closeTransaction ?_ fun c h => ⟨db.data, h⟩
  refine Triple.bind (Q := fun c c' => c = c' ∧ InRun db c') (Triple.get fun c h => ⟨rfl, h.1⟩)
    fun c => ?_
  cases hview : c.view with
  | none =>
    refine Triple.pure fun c' h => ⟨db.data, h.2.committed, ?_, rfl, rfl⟩
    rw [← h.1]
    exact hview
  | some v =>
    refine Triple.bind (Q := fun _ c => v.claims = db.claims ∧ c.committed = db) ?_ fun answer => ?_
    · refine (triple_nextAnswer fun _ _ h => h).mono ?_ (fun _ _ => id) fun _ _ => id
      exact fun c' h => ⟨h.2.claims v (by rw [← h.1]; exact hview), h.2.committed⟩
    cases answer with
    | done =>
      refine Triple.modify fun c' h => ⟨v.data, ?_, rfl, rfl, rfl⟩
      show v = _
      rw [← h.1]
    | fails => exact Triple.throw fun c' h => ⟨h.2, rfl, rfl⟩
    | failsRolledBack =>
      exact Triple.bind (Q := fun _ c => c.committed = db) (Triple.modify fun _ h => h.2) fun _ =>
        Triple.throw fun c' h => ⟨h, rfl, rfl⟩

theorem triple_rollback :
    Triple (InRun db) (rollback : D δ β Unit) (fun _ => Idle db) fun _ => Unflagged db := by
  refine triple_closeTransaction ?_ fun c h => h
  refine Triple.bind (Q := fun c c' => c = c' ∧ c'.committed = db)
    (Triple.get fun c h => ⟨rfl, h.1.committed⟩) fun c => ?_
  cases hview : c.view with
  | none =>
    refine Triple.pure fun c' h => ⟨h.2, ?_, rfl, rfl⟩
    rw [← h.1]
    exact hview
  | some v =>
    refine Triple.bind (Q := fun _ c => c.committed = db) ?_ fun answer => ?_
    · exact (triple_nextAnswer fun _ _ h => h).mono (fun _ h => h.2) (fun _ _ => id) fun _ _ => id
    cases answer with
    | done => exact Triple.modify fun c' h => ⟨h, rfl, rfl, rfl⟩
    | fails => exact Triple.throw fun c' h => ⟨h, rfl, rfl⟩
    | failsRolledBack =>
      exact Triple.bind (Q := fun _ c => c.committed = db) (Triple.modify fun _ h => h) fun _ =>
        Triple.throw fun c' h => ⟨h, rfl, rfl⟩

/-- The bracket of the driver. -/
theorem bracket (methods : RowMethods δ) (db : Database δ β) :
    (methods.repo : Repo (Connection δ β)).Bracket (Idle db) (InRun db) (Applied db) (Unflagged db)
      (Idle db) where
  rows := rowsKeep_inRun methods
  begin := triple_begin
  commit := triple_commit
  rollback := triple_rollback

end Connection

end Lnpl.Serve
