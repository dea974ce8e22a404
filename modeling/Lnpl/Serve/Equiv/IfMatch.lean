import Lnpl.Drivers.Equiv.Connections
import Lnpl.Serve.IfMatch

/-!
# If-Match at the write

The check of `If-Match` and the run's own read are two statements, and the run's write is
conditioned on the second.  A request is therefore held to the version its client has seen as long
as the row that its run has read, or writes to without a version, is still the one the client has
seen (`Steady`); a writer that comes between the two statements is overwritten (`not_ifMatchLaw`).

The invariant has two parts: until the run writes the conditioned row, its view of the row is the
committed one; from then on, the run holds the write lock, and the committed row is the one the
client has seen.
-/

namespace Lnpl.Serve.IfMatch

open Lnpl.Drivers.Sqlite Lnpl.Lib
open Lnpl.Drivers.Connections (Birth conn_of_step committed_of_step)

variable {ε κ P ρ : Type} [Ord κ] [Std.TransOrd κ] {q : Request ε κ ρ} {s t : State ε κ P ρ}

/-! ### The invariant -/

/-- The run has written the conditioned row, and what it replaces is what the client has seen. -/
def State.Secured (q : Request ε κ ρ) (s : State ε κ P ρ) : Prop :=
  (∃ view, (s.db.conn q.conn).txn = .writing view) ∧
    ∃ row, s.db.committed.get q.entity q.key = some row ∧ s.SameAsSeen row

/-- What holds in every state of a steady run. -/
structure Inv (q : Request ε κ ρ) (s : State ε κ P ρ) : Prop where
  db : Drivers.Connections.Inv s.db
  /-- the connection of the GET keeps what it has read -/
  seen : ∀ row, s.seen = some row → (s.db.conn q.getConn).txn = .autocommit ∧
    (s.db.conn q.getConn).bound q.entity q.key = some row
  waiting : s.phase = .waiting → s.db.conn q.conn = {}
  unseen : s.seen = none → s.phase = .waiting
  running : s.phase = .running → s.Secured q ∨ s.Unwritten q
  enforced : Enforced s

variable {row : Row P (Birth ρ)} {db' : Drivers.Connections.State ε κ P ρ} {phase : Phase P}

/-- A committed row of the birth and version that the client has seen has the content it has
seen. -/
theorem Inv.payload_eq (h : Inv q s) (hrow : s.db.committed.get q.entity q.key = some row)
    (hsame : s.SameAsSeen row) :
    ∃ o, s.seen = some o ∧ row.payload = o.payload := by
  obtain ⟨o, ho, hborn, hversion⟩ := hsame
  obtain ⟨htxn, hbound⟩ := h.seen o ho
  have hbase : (s.db.base q.getConn).get q.entity q.key = some row := by
    unfold Drivers.Connections.State.base
    rw [htxn]
    exact hrow
  have htracks := h.db.knownTracks q.getConn q.entity q.key o row (.inl hbound) hbase hborn
  exact ⟨o, ho, htracks.2 hversion.symm⟩

/-- What a write of the run works on holds the committed row, as long as the run has not written
it. -/
theorem Inv.get_writable (h : Inv q s) (hunwritten : s.Unwritten q) {R : Rows ε κ P (Birth ρ)}
    (hR : s.db.writable q.conn = some R) :
    R.get q.entity q.key = s.db.committed.get q.entity q.key := by
  obtain ⟨rfl, -⟩ := h.db.base_of_writable hR
  unfold Drivers.Connections.State.base
  split
  · next view htxn => exact hunwritten view htxn
  · rfl

/-! ### Statements of the run -/

variable [DecidableEq ρ] {py : Front.Python} {encodeId : κ → P}

/-- What `State.write` executes. -/
abbrev WriteStatement (ε κ P ρ : Type) [Ord κ] : Type :=
  Rows ε κ P (Birth ρ) → Rows ε κ P (Birth ρ) ×
    (Drivers.Connections.Connection ε κ P ρ → Drivers.Connections.Connection ε κ P ρ)

/-- What a write statement of the run makes of the conditioned row: it is left alone, or it was the
one the client has seen. -/
def KeepsOrSeen (q : Request ε κ ρ) (s : State ε κ P ρ) (R : Rows ε κ P (Birth ρ))
    (f : WriteStatement ε κ P ρ) : Prop :=
  (f R).1.get q.entity q.key = R.get q.entity q.key ∨
    ∃ row, R.get q.entity q.key = some row ∧ s.SameAsSeen row

/-- A write statement of the run. -/
theorem Inv.write (h : Inv q s) (hrunning : s.phase = .running)
    {f : WriteStatement ε κ P ρ}
    (htxn : ∀ R x, ((f R).2 x).txn = x.txn)
    (hf : s.Unwritten q → ∀ R, s.db.writable q.conn = some R → KeepsOrSeen q s R f) :
    State.Secured q { s with db := s.db.write q.conn f } ∨
      State.Unwritten q { s with db := s.db.write q.conn f } := by
  have hcommitted : (s.db.write q.conn f).committed = s.db.committed :=
    Drivers.Connections.committed_write f
  cases hR : s.db.writable q.conn with
  | none =>
    -- refused: the transaction is at most begun
    have hnot : ∀ view, (s.db.conn q.conn).txn ≠ .writing view := by
      intro view hview
      unfold Drivers.Connections.State.writable at hR
      rw [hview] at hR
      cases hR
    obtain ⟨⟨view, hview⟩, -⟩ | - := h.running hrunning
    · exact absurd hview (hnot view)
    · right
      intro view hview
      have hview' : ((s.db.write q.conn f).conn q.conn).txn = .writing view := hview
      unfold Drivers.Connections.State.write at hview'
      simp only [hR, Drivers.Connections.setConn_conn, Function.update_self] at hview'
      cases hold : (s.db.conn q.conn).txn with
      | writing view' => exact absurd hold (hnot view')
      | autocommit | begun | reading =>
        rw [hold] at hview'
        cases hview'
  | some R =>
    have hwriting : ((s.db.write q.conn f).conn q.conn).txn = .writing (f R).1 := by
      unfold Drivers.Connections.State.write
      simp [hR, htxn]
    obtain ⟨-, row, hrow, hsame⟩ | hunwritten := h.running hrunning
    · exact .inl ⟨⟨_, hwriting⟩, row, by rw [hcommitted]; exact hrow, hsame⟩
    · have hget := h.get_writable hunwritten hR
      obtain hkeep | ⟨row, hrow, hsame⟩ := hf hunwritten R hR
      · right
        intro view hview
        have hview' : (Drivers.Connections.Txn.writing (f R).1 :
            Drivers.Connections.Txn ε κ P ρ) = .writing view := hwriting.symm.trans hview
        obtain rfl := Drivers.Connections.Txn.writing.inj hview'
        show (f R).1.get q.entity q.key = (s.db.write q.conn f).committed.get q.entity q.key
        rw [hkeep, hget, hcommitted]
      · left
        exact ⟨⟨_, hwriting⟩, row, by rw [hcommitted, ← hget]; exact hrow, hsame⟩

/-- A statement of the run that only reads. -/
theorem Inv.read (h : Inv q s) (hrunning : s.phase = .running)
    {x : Drivers.Connections.Connection ε κ P ρ} (htxn : x.txn = s.db.afterRead q.conn) :
    State.Secured q { s with db := s.db.setConn q.conn x } ∨
      State.Unwritten q { s with db := s.db.setConn q.conn x } := by
  have hself : (s.db.setConn q.conn x).conn q.conn = x := Function.update_self ..
  have hwriting : ∀ view, ((s.db.setConn q.conn x).conn q.conn).txn = .writing view ↔
      (s.db.conn q.conn).txn = .writing view := by
    intro view
    rw [hself, htxn]
    unfold Drivers.Connections.State.afterRead
    split
    · next hbegun => simp [hbegun]
    · rfl
  obtain ⟨⟨view, hview⟩, hrow⟩ | hunwritten := h.running hrunning
  · exact .inl ⟨⟨view, (hwriting view).mpr hview⟩, hrow⟩
  · right
    intro view hview
    exact hunwritten view ((hwriting view).mp hview)

variable [DecidableEq ε] [DecidableEq κ] [Std.LawfulEqOrd κ] {e : ε} {k : κ} {payload : P}
  {R : Rows ε κ P (Birth ρ)}

omit [DecidableEq ρ] in
omit [DecidableEq ρ] in
/-- An UPDATE, whatever it does to the row objects of its connection. -/
theorem keepsOrSeen_updateRow
    {g : Drivers.Connections.Connection ε κ P ρ → Drivers.Connections.Connection ε κ P ρ}
    (hrow : (e = q.entity ∧ k = q.key) → ∀ row, R.get q.entity q.key = some row →
      s.SameAsSeen row) :
    KeepsOrSeen q s R fun R => ((updateRow R e k payload).1, g) := by
  unfold KeepsOrSeen
  dsimp only
  rw [get_updateRow]
  split_ifs with hkey
  · obtain ⟨rfl, rfl⟩ := hkey
    cases hget : R.get q.entity q.key with
    | some row => exact .inr ⟨row, rfl, hrow ⟨rfl, rfl⟩ row hget⟩
    | none => exact .inl rfl
  · exact .inl rfl

omit [DecidableEq ρ] in
theorem keepsOrSeen_touchWrite {current : Option (Row P (Birth ρ))}
    (hrow : (e = q.entity ∧ k = q.key) → ∀ row, R.get q.entity q.key = some row →
      s.SameAsSeen row) :
    KeepsOrSeen q s R (Drivers.Connections.touchWrite encodeId e k current) := by
  obtain ⟨payload, row, -, heq⟩ | ⟨-, heq⟩ :=
    Drivers.Connections.touchWrite_cases encodeId e k current R
  · unfold KeepsOrSeen
    rw [heq]
    exact keepsOrSeen_updateRow (g := id) hrow
  · left
    rw [heq]

omit [DecidableEq ρ] in
theorem keepsOrSeen_persistWrite {version : Nat}
    (hrow : (e = q.entity ∧ k = q.key) → ∀ row, R.get q.entity q.key = some row →
      row.version = version → s.SameAsSeen row) :
    KeepsOrSeen q s R (Drivers.Connections.persistWrite e k payload version) := by
  obtain ⟨row, hget, hversion, heq⟩ | ⟨-, heq⟩ :=
    Drivers.Connections.persistWrite_cases e k payload version R
  · have hseen : (e = q.entity ∧ k = q.key) → ∀ row', R.get q.entity q.key = some row' →
        s.SameAsSeen row' := by
      rintro ⟨rfl, rfl⟩ row' hrow'
      obtain rfl : row = row' := by
        rw [hget] at hrow'
        exact Option.some.inj hrow'
      exact hrow ⟨rfl, rfl⟩ row hget hversion
    unfold KeepsOrSeen
    rw [heq]
    exact keepsOrSeen_updateRow (g := id) hseen
  · left
    rw [heq]

omit [DecidableEq ρ] in
theorem keepsOrSeen_persistCreatedWrite
    (hrow : (e = q.entity ∧ k = q.key) → ∀ row, R.get q.entity q.key = some row →
      s.SameAsSeen row) :
    KeepsOrSeen q s R (Drivers.Connections.persistCreatedWrite e k payload) :=
  keepsOrSeen_updateRow (g := id) hrow

omit [DecidableEq ρ] in
theorem keepsOrSeen_deleteWrite
    (hrow : (e = q.entity ∧ k = q.key) → ∀ row, R.get q.entity q.key = some row →
      s.SameAsSeen row) :
    KeepsOrSeen q s R (Drivers.Connections.deleteWrite e k) := by
  unfold KeepsOrSeen
  show (deleteRow R e k).1.get q.entity q.key = _ ∨ _
  rw [get_deleteRow]
  split_ifs with hkey
  · obtain ⟨rfl, rfl⟩ := hkey
    cases hget : R.get q.entity q.key with
    | some row => exact .inr ⟨row, rfl, hrow ⟨rfl, rfl⟩ row hget⟩
    | none => exact .inl rfl
  · exact .inl rfl

omit [DecidableEq ρ] in
/-- A create that meets a row under its key changes nothing. -/
theorem keepsOrSeen_createWrite {c : ρ} {inserted : Nat}
    (hrow : (e = q.entity ∧ k = q.key) → R.get q.entity q.key ≠ none) :
    KeepsOrSeen q s R (Drivers.Connections.createWrite encodeId c e k inserted) := by
  unfold KeepsOrSeen Drivers.Connections.createWrite
  split
  · next R' hR' =>
    obtain ⟨hnone, hget⟩ := get_insertRow hR' q.entity q.key
    have hkey : ¬(q.entity = e ∧ q.key = k) := by
      rintro ⟨rfl, rfl⟩
      exact hrow ⟨rfl, rfl⟩ hnone
    rw [if_neg hkey] at hget
    exact .inl hget
  · exact .inl rfl

/-! ### The steps -/

variable {a : Drivers.Connections.Action ε κ P ρ} {db : Drivers.Connections.State ε κ P ρ}

omit [Std.LawfulEqOrd κ] in
/-- Only a commit publishes anything. -/
theorem committed_of_not_ends (ha : Drivers.Connections.step encodeId db a = some db')
    (hends : a.ends = false) :
    db'.committed = db.committed := by
  obtain hsame | ⟨hcommit, -⟩ := committed_of_step ha
  · exact hsame
  · rw [hcommit] at hends
    cases hends

omit [Std.LawfulEqOrd κ] in
theorem committed_of_exec {as : List (Drivers.Connections.Action ε κ P ρ)}
    (h : exec (Drivers.Connections.step encodeId) db as = some db')
    (hends : ∀ a ∈ as, a.ends = false) : db'.committed = db.committed := by
  induction as generalizing db with
  | nil =>
    obtain rfl := Option.some.inj h
    rfl
  | cons a as ih =>
    obtain ⟨db₁, ha, has⟩ := Option.bind_eq_some_iff.mp h
    rw [ih has fun b hb => hends b (List.mem_cons_of_mem a hb)]
    exact committed_of_not_ends ha (hends a List.mem_cons_self)

omit [DecidableEq ε] [DecidableEq κ] [DecidableEq ρ] in
theorem inv_start (T : Tables ε κ (P × Nat)) :
    Inv q ({ db := Drivers.Connections.State.init T } : State ε κ P ρ) where
  db := Drivers.Connections.inv_init T
  seen row h := by cases h
  waiting _ := rfl
  unseen _ := rfl
  running h := by cases h
  enforced content h := by cases h

section

variable (h : Inv q s)
include h

omit [Std.LawfulEqOrd κ] in
/-- As long as the run holds the write lock, no other connection commits anything. -/
theorem Inv.committed_of_other (hother : a.conn ≠ q.conn)
    (ha : Drivers.Connections.step encodeId s.db a = some db) {view : Rows ε κ P (Birth ρ)}
    (hview : (s.db.conn q.conn).txn = .writing view) : db.committed = s.db.committed := by
  obtain hsame | ⟨-, view', hview', -⟩ := committed_of_step ha
  · exact hsame
  · have hmine : s.db.writer = some q.conn := (h.db.lock _).mpr ⟨view, hview⟩
    have htheirs : s.db.writer = some a.conn := (h.db.lock _).mpr ⟨view', hview'⟩
    exact absurd (Option.some.inj (htheirs.symm.trans hmine)) hother

/-- A statement of another connection. -/
theorem Inv.other (hget : a.conn ≠ q.getConn) (hconn : a.conn ≠ q.conn)
    (ha : Drivers.Connections.step encodeId s.db a = some db) : Inv q { s with db := db } := by
  have hgetConn : db.conn q.getConn = s.db.conn q.getConn := conn_of_step ha hget.symm
  have hrunConn : db.conn q.conn = s.db.conn q.conn := conn_of_step ha hconn.symm
  constructor
  case db => exact Drivers.Connections.inv_step h.db ha
  case seen =>
    intro row hrow
    show (db.conn q.getConn).txn = _ ∧ (db.conn q.getConn).bound q.entity q.key = _
    rw [hgetConn]
    exact h.seen row hrow
  case waiting =>
    intro hwaiting
    exact hrunConn.trans (h.waiting hwaiting)
  case unseen => exact h.unseen
  case running =>
    intro hrunning
    obtain ⟨⟨view, hview⟩, row, hrow, hsame⟩ | hunwritten := h.running hrunning
    · left
      constructor
      · exact ⟨view, by rw [← hview]; exact congrArg Drivers.Connections.Connection.txn hrunConn⟩
      · refine ⟨row, ?_, hsame⟩
        show db.committed.get q.entity q.key = some row
        rw [h.committed_of_other hconn ha hview]
        exact hrow
    · right
      intro view hview
      have hview' : (s.db.conn q.conn).txn = .writing view := by rw [← hrunConn]; exact hview
      show _ = db.committed.get q.entity q.key
      rw [h.committed_of_other hconn ha hview']
      exact hunwritten view hview'
  case enforced => exact h.enforced

/-- The client's GET. -/
theorem Inv.get (hseen : s.seen = none) (hrow : selectRow s.db.committed q.entity q.key = some row)
    (ha : exec (Drivers.Connections.step encodeId) s.db
      [.begin q.getConn, .read q.getConn q.entity q.key] = some db) :
    Inv q { s with db := db, seen := some row } := by
  have hphase := h.unseen hseen
  obtain ⟨db₁, hbegin, hread⟩ := exec_pair ha
  have hdb := Drivers.Connections.inv_step (Drivers.Connections.inv_step h.db hbegin) hread
  have hrunConn : db.conn q.conn = s.db.conn q.conn :=
    (conn_of_step hread q.distinct.symm).trans (conn_of_step hbegin q.distinct.symm)
  simp only [Drivers.Connections.step] at hbegin hread
  split_ifs at hbegin with hidle
  obtain rfl := Option.some.inj hbegin
  split_ifs at hread
  obtain rfl := Option.some.inj hread
  have htxn : (s.db.conn q.getConn).txn = .autocommit :=
    h.db.resting _ (by simp [hidle])
  constructor
  case db => exact hdb
  case seen =>
    intro row' hrow'
    obtain rfl : row = row' := Option.some.inj hrow'
    unfold selectRow at hrow
    simp [Drivers.Connections.State.visible, Drivers.Connections.State.afterRead, htxn,
      selectRow, hrow, Drivers.Connections.Connection.bindRow]
  case waiting => exact fun _ => hrunConn.trans (h.waiting hphase)
  case unseen =>
    intro hnone
    cases hnone
  case running =>
    intro hrunning
    rw [show s.phase = .running from hrunning] at hphase
    cases hphase
  case enforced =>
    intro content hok
    rw [show s.phase = _ from hok] at hphase
    cases hphase

/-- `_check_if_match`, whatever it answers. -/
theorem Inv.check (hwaiting : s.phase = .waiting) {o : Row P (Birth ρ)} (hseen : s.seen = some o)
    (ha : exec (Drivers.Connections.step encodeId) s.db
      [.begin q.conn, .query q.conn q.entity] = some db)
    (hphase : phase = .running ∨ ∃ status, phase = .refused status) :
    Inv q { s with db := db, phase := phase } := by
  obtain ⟨db₁, hbegin, hquery⟩ := exec_pair ha
  have hdb := Drivers.Connections.inv_step (Drivers.Connections.inv_step h.db hbegin) hquery
  have hgetConn : db.conn q.getConn = s.db.conn q.getConn :=
    (conn_of_step hquery q.distinct).trans (conn_of_step hbegin q.distinct)
  have hfresh := h.waiting hwaiting
  constructor
  case db => exact hdb
  case seen =>
    intro row hrow
    show (db.conn q.getConn).txn = _ ∧ (db.conn q.getConn).bound q.entity q.key = _
    rw [hgetConn]
    exact h.seen row hrow
  case waiting =>
    intro hphase'
    obtain rfl | ⟨status, rfl⟩ := hphase <;> cases hphase'
  case unseen =>
    intro hnone
    rw [show s.seen = none from hnone] at hseen
    cases hseen
  case running =>
    -- nothing is written yet
    intro _
    right
    simp only [Drivers.Connections.step, hfresh] at hbegin hquery
    obtain rfl := Option.some.inj hbegin
    simp only [Drivers.Connections.setConn_conn, Function.update_self, and_self, if_true] at hquery
    obtain rfl := Option.some.inj hquery
    intro view hview
    simp [Drivers.Connections.State.afterRead] at hview
  case enforced =>
    intro content hok
    obtain rfl | ⟨status, rfl⟩ := hphase <;> cases hok

section

variable (hrunning : s.phase = .running)
include hrunning

/-- What a statement of the run makes of the conditioned row. -/
theorem Inv.secured_or_unwritten (hconn : a.conn = q.conn) (hends : a.ends = false)
    (hsteady : Steady q s (.run a)) (ha : Drivers.Connections.step encodeId s.db a = some db) :
    State.Secured q { s with db := db } ∨ State.Unwritten q { s with db := db } := by
  cases a with
  | begin c =>
    obtain rfl : c = q.conn := hconn
    simp only [Drivers.Connections.step] at ha
    split_ifs at ha with hidle
    obtain rfl := Option.some.inj ha
    have htxn := h.db.resting q.conn (by simp [hidle])
    apply h.read hrunning
    unfold Drivers.Connections.State.afterRead
    rw [htxn]
  | read c e k =>
    obtain rfl : c = q.conn := hconn
    simp only [Drivers.Connections.step] at ha
    split_ifs at ha
    obtain rfl := Option.some.inj ha
    apply h.read hrunning
    unfold Drivers.Connections.Connection.bindRow
    split <;> rfl
  | query c e | touchSelect c e k =>
    obtain rfl : c = q.conn := hconn
    simp only [Drivers.Connections.step] at ha
    split_ifs at ha
    obtain rfl := Option.some.inj ha
    exact h.read hrunning rfl
  | touchUpdate c =>
    obtain rfl : c = q.conn := hconn
    simp only [Drivers.Connections.step] at ha
    split at ha
    · next e k current hphase htouch =>
      obtain rfl := Option.some.inj ha
      refine h.write hrunning (fun R x => ?_) fun hunwritten R hR => ?_
      · unfold Drivers.Connections.touchWrite
        dsimp only
        split <;> rfl
      · apply keepsOrSeen_touchWrite
        rintro ⟨rfl, rfl⟩ row hrow
        exact hsteady hunwritten current htouch R row hR hrow
    · cases ha
  | delete c e k =>
    obtain rfl : c = q.conn := hconn
    simp only [Drivers.Connections.step] at ha
    split_ifs at ha
    obtain rfl := Option.some.inj ha
    refine h.write hrunning (fun R x => rfl) fun hunwritten R hR => ?_
    apply keepsOrSeen_deleteWrite
    intro hkey row hrow
    exact hsteady hkey hunwritten R row hR hrow
  | create c e k =>
    obtain rfl : c = q.conn := hconn
    simp only [Drivers.Connections.step] at ha
    split_ifs at ha
    obtain rfl := Option.some.inj ha
    refine h.write hrunning (fun R x => ?_) fun hunwritten R hR => ?_
    · unfold Drivers.Connections.createWrite
      split <;> rfl
    · apply keepsOrSeen_createWrite
      intro hkey
      exact hsteady hkey hunwritten R hR
  | persist c e k payload =>
    obtain rfl : c = q.conn := hconn
    simp only [Drivers.Connections.step] at ha
    split at ha
    · next b hb =>
      split_ifs at ha
      obtain rfl := Option.some.inj ha
      refine h.write hrunning (fun R x => ?_) fun hunwritten R hR => ?_
      · obtain ⟨row, -, -, heq⟩ | ⟨-, heq⟩ :=
          Drivers.Connections.persistWrite_cases (ρ := ρ) e k payload b.version R
        · rw [heq]
          rfl
        · rw [heq]
      · apply keepsOrSeen_persistWrite
        rintro ⟨rfl, rfl⟩ row hrow hversion
        -- the row object the run has read is of the row the client has seen, and so is this row
        obtain ⟨⟨o, ho, hborn, hversion'⟩, hsame⟩ :=
          hsteady ⟨rfl, rfl⟩ hunwritten b R row hb hR hrow hversion
        exact ⟨o, ho, hsame.trans hborn, hversion.trans hversion'⟩
    · cases ha
  | persistCreated c e k payload =>
    obtain rfl : c = q.conn := hconn
    simp only [Drivers.Connections.step] at ha
    split_ifs at ha
    obtain rfl := Option.some.inj ha
    refine h.write hrunning (fun R x => rfl) fun hunwritten R hR => ?_
    apply keepsOrSeen_persistCreatedWrite
    intro hkey row hrow
    exact hsteady hkey hunwritten R row hR hrow
  | commit c | rollback c => cases hends

/-- A step of the request itself, while it runs. -/
theorem Inv.own (hconn : a.conn = q.conn) (ha : Drivers.Connections.step encodeId s.db a = some db)
    (hphase : phase ≠ .waiting)
    (hsecured : phase = .running → State.Secured q { s with db := db, phase := phase } ∨
      State.Unwritten q { s with db := db, phase := phase })
    (henforced : Enforced { s with db := db, phase := phase }) :
    Inv q { s with db := db, phase := phase } := by
  have hgetConn : db.conn q.getConn = s.db.conn q.getConn :=
    conn_of_step ha (by rw [hconn]; exact q.distinct)
  constructor
  case db => exact Drivers.Connections.inv_step h.db ha
  case seen =>
    intro row hrow
    show (db.conn q.getConn).txn = _ ∧ (db.conn q.getConn).bound q.entity q.key = _
    rw [hgetConn]
    exact h.seen row hrow
  case waiting => exact fun hwaiting => absurd hwaiting hphase
  case unseen =>
    intro hnone
    have hwaiting := h.unseen hnone
    rw [hrunning] at hwaiting
    cases hwaiting
  case running => exact hsecured
  case enforced => exact henforced

omit [DecidableEq ε] [DecidableEq κ] [Std.LawfulEqOrd κ] in
/-- The commit: what the run has replaced is what the client has seen. -/
theorem Inv.replaced_seen [DecidableEq P] {content : Option P}
    (hreplaced : s.replaced q = some content) :
    ∃ row, s.seen = some row ∧ content = some row.payload := by
  unfold State.replaced at hreplaced
  split at hreplaced
  · next view hview =>
    split_ifs at hreplaced with hget
    obtain rfl := Option.some.inj hreplaced
    obtain ⟨-, row, hrow, hsame⟩ | hunwritten := h.running hrunning
    · obtain ⟨o, ho, hpayload⟩ := h.payload_eq hrow hsame
      exact ⟨o, ho, by rw [hrow, ← hpayload]; rfl⟩
    · exact absurd (hunwritten view hview) hget
  · cases hreplaced

end

end

variable [DecidableEq P]

/-- **A steady step keeps the invariant.** -/
theorem Inv.step (h : Inv q s) {a : Action ε κ P ρ} (hsteady : Steady q s a)
    (ha : step py encodeId q s a = some t) : Inv q t := by
  cases a with
  | other a =>
    simp only [IfMatch.step] at ha
    split_ifs at ha with hne
    obtain ⟨db, hdb, rfl⟩ := Option.map_eq_some_iff.mp ha
    exact h.other hne.1 hne.2 hdb
  | get =>
    simp only [IfMatch.step] at ha
    split at ha
    · next row hwaiting hseen hrow =>
      obtain ⟨db, hdb, rfl⟩ := Option.map_eq_some_iff.mp ha
      exact h.get hseen hrow hdb
    · cases ha
  | check ifMatch fails =>
    simp only [IfMatch.step] at ha
    split_ifs at ha with hsent
    obtain ⟨db, hdb, rfl⟩ := Option.map_eq_some_iff.mp ha
    obtain ⟨o, ho, -⟩ := Option.map_eq_some_iff.mp hsent.2
    split
    · exact h.check hsent.1 ho hdb (.inl rfl)
    · exact h.check hsent.1 ho hdb (.inr ⟨_, rfl⟩)
    · exact h.check hsent.1 ho hdb (.inr ⟨_, rfl⟩)
  | run a =>
    simp only [IfMatch.step] at ha
    split_ifs at ha with hown
    obtain ⟨db, hdb, rfl⟩ := Option.map_eq_some_iff.mp ha
    have hrow := h.secured_or_unwritten hown.1 hown.2.1 hown.2.2 hsteady hdb
    exact h.own hown.1 hown.2.1 hdb (by simp [hown.1]) (fun _ => hrow) h.enforced
  | commit =>
    simp only [IfMatch.step] at ha
    split_ifs at ha with hrunning
    obtain ⟨db, hdb, rfl⟩ := Option.map_eq_some_iff.mp ha
    refine h.own hrunning rfl hdb ?_ ?_ ?_
    · simp
    · simp
    · intro content hok
      exact h.replaced_seen hrunning (Phase.ok.inj hok)
  | rollback =>
    simp only [IfMatch.step] at ha
    split_ifs at ha with hrunning
    obtain ⟨db, hdb, rfl⟩ := Option.map_eq_some_iff.mp ha
    refine h.own hrunning rfl hdb (by simp) (by simp) ?_
    intro content hok
    cases hok

omit [Std.LawfulEqOrd κ] in
/-- What the request commits is answered with 200. -/
theorem answeredFor_of_step {a : Action ε κ P ρ} (ha : step py encodeId q s a = some t) :
    AnsweredFor a s t := by
  cases a with
  | other a => trivial
  | get =>
    simp only [IfMatch.step] at ha
    split at ha
    · obtain ⟨db, hdb, rfl⟩ := Option.map_eq_some_iff.mp ha
      exact .inl (committed_of_exec hdb (by simp [Drivers.Connections.Action.ends]))
    · cases ha
  | check ifMatch fails =>
    simp only [IfMatch.step] at ha
    split_ifs at ha
    obtain ⟨db, hdb, rfl⟩ := Option.map_eq_some_iff.mp ha
    have hcommitted := committed_of_exec hdb (by simp [Drivers.Connections.Action.ends])
    left
    split <;> exact hcommitted
  | run a =>
    simp only [IfMatch.step] at ha
    split_ifs at ha with hown
    obtain ⟨db, hdb, rfl⟩ := Option.map_eq_some_iff.mp ha
    exact .inl (committed_of_not_ends hdb hown.2.2)
  | commit =>
    simp only [IfMatch.step] at ha
    split_ifs at ha
    obtain ⟨db, hdb, rfl⟩ := Option.map_eq_some_iff.mp ha
    exact .inr ⟨_, rfl⟩
  | rollback =>
    simp only [IfMatch.step] at ha
    split_ifs at ha
    obtain ⟨db, hdb, rfl⟩ := Option.map_eq_some_iff.mp ha
    obtain hsame | ⟨hcommit, -⟩ := committed_of_step hdb
    · exact .inl hsame
    · cases hcommit

/-- A store of one order. -/
def pendingOrder : Tables String String (String × Nat) :=
  Tables.empty.set "Order" "o-1" ("pending", 0)

/-- A request to change the order of its path, by connection 0; connection 1 has answered the
GET. -/
def changeOrder : Request String String Nat where
  getConn := 1
  conn := 0
  distinct := by decide
  entity := "Order"
  later := []
  lookup := fun _ => none
  resolve := fun _ => .ok "o-1"
  key := "o-1"
  static := rfl
  resolves := rfl

/-- The check passes, then connection 2 changes the order and commits, and then the run of the
request reads the order and changes it. -/
def overwrittenChange : List (Action String String String Nat) :=
  [.get, .check "W/\"0\"" false,
   .other (.begin 2), .other (.read 2 "Order" "o-1"), .other (.persist 2 "Order" "o-1" "paid"),
   .other (.commit 2),
   .run (.read 0 "Order" "o-1"), .run (.persist 0 "Order" "o-1" "cancelled"), .commit]

end Lnpl.Serve.IfMatch
