import Lnpl.Lib.Runs
import Lnpl.Drivers.Connections

/-!
# Lost updates between concurrent runs

A row object `o` *tracks* the row `n` stored under its key: if `n` is still the row `o` was read
from, its version is at least `o`'s, and equal versions mean an unchanged payload.  `Inv` says that
every row object and every snapshot tracks the rows its connection would write to, and that a view
only evolves the committed rows; every statement of every connection keeps it (`inv_step`).

A write replaces what its run observed (`ReplacesObserved`) unless the version counter fails to
tell the row from another one: `persist` cannot see that a row was deleted and created anew and
counted up to the same version, and `update` does not compare versions at all
(`update_loses_an_update`).  `replacesObserved_of_undisturbed` proves it for every run without
these two coincidences (`Undisturbed`).
-/

namespace Lnpl.Drivers.Connections

open Lnpl.Lib Lnpl.Drivers.Sqlite

variable {ε κ P ρ : Type}

/-! ### Row objects and stored rows -/

/-- The row object `o` tracks the stored row `n`. -/
def Tracks (o n : Row P (Birth ρ)) : Prop :=
  n.born = o.born → o.version ≤ n.version ∧ (o.version = n.version → n.payload = o.payload)

theorem Tracks.refl (o : Row P (Birth ρ)) : Tracks o o := fun _ => ⟨Nat.le_refl _, fun _ => rfl⟩

variable {a : Row P (Birth ρ)}

theorem Tracks.trans {b c : Row P (Birth ρ)} (hab : Tracks a b) (hbc : Tracks b c)
    (hborn : b.born = c.born) : Tracks a c := by
  intro hc
  obtain ⟨hle, heq⟩ := hab (hborn.trans hc)
  obtain ⟨hle', heq'⟩ := hbc hborn.symm
  refine ⟨Nat.le_trans hle hle', fun h => ?_⟩
  rw [heq' (by omega), heq (by omega)]

variable {n : Row P (Birth ρ)}

/-- A write to the stored row leaves a row object behind. -/
theorem Tracks.write (h : Tracks a n) (payload : P) : Tracks a (n.updated payload) := by
  intro hborn
  have := (h hborn).1
  exact ⟨by simp only [Row.updated]; omega, fun h => by simp only [Row.updated] at h; omega⟩

/-- A row object advanced over a write keeps up with it. -/
theorem Tracks.advance (h : Tracks a n) (payload : P) :
    Tracks (advance payload a) (n.updated payload) := by
  intro hborn
  have := (h hborn).1
  exact ⟨by simp only [Connections.advance, Row.updated]; omega, fun _ => rfl⟩

/-! ### The invariant -/

section Invariant

variable [Ord κ]

/-- The row objects a connection holds: the bound ones, and the one of an `update` in flight. -/
def Connection.Knows (x : Connection ε κ P ρ) (e : ε) (k : κ) (o : Row P (Birth ρ)) : Prop :=
  x.bound e k = some o ∨ x.touch = some (e, k, some o)

/-- The rows a write of `c` would work on if nothing refused it. -/
def State.base (s : State ε κ P ρ) (c : ρ) : Rows ε κ P (Birth ρ) :=
  match (s.conn c).txn with
  | .writing view => view
  | _ => s.committed

/-- The inserter of a row is over. -/
def State.Settled (s : State ε κ P ρ) (o : Row P (Birth ρ)) : Prop :=
  ∀ d i, o.born = some (d, i) → (s.conn d).phase = .finished

/-- `o` was inserted by `c` itself. -/
def State.Own (s : State ε κ P ρ) (c : ρ) (o : Row P (Birth ρ)) : Prop :=
  ∃ i < (s.conn c).inserted, o.born = some (c, i)

variable {s t : State ε κ P ρ} {o : Row P (Birth ρ)} {d : ρ} {a : Action ε κ P ρ}

/-- Runs that are over stay so. -/
theorem State.Settled.mono (hfin : ∀ d, (s.conn d).phase = .finished → (t.conn d).phase = .finished)
    (ho : s.Settled o) : t.Settled o :=
  fun d i hd => hfin d (ho d i hd)

theorem State.Own.mono {c : ρ} (hins : (s.conn c).inserted ≤ (t.conn c).inserted) (ho : s.Own c o) :
    t.Own c o := by
  obtain ⟨i, hi, hborn⟩ := ho
  exact ⟨i, Nat.lt_of_lt_of_le hi hins, hborn⟩

variable [Std.TransOrd κ]

/-- The invariant of all connections. -/
structure Inv (s : State ε κ P ρ) : Prop where
  lock : ∀ c, s.writer = some c ↔ ∃ view, (s.conn c).txn = .writing view
  resting : ∀ c, (s.conn c).phase ≠ .running → (s.conn c).txn = .autocommit
  committedSettled : ∀ e k n, s.committed.get e k = some n → s.Settled n
  knownSettled : ∀ c e k o, (s.conn c).Knows e k o → s.Settled o ∨ s.Own c o
  knownTracks : ∀ c e k o n, (s.conn c).Knows e k o → (s.base c).get e k = some n → Tracks o n
  viewEvolves : ∀ c view, (s.conn c).txn = .writing view → ∀ e k n, view.get e k = some n →
    s.Own c n ∨ ∃ o, s.committed.get e k = some o ∧ o.born = n.born ∧ Tracks o n
  snapshotSettled : ∀ c stamp snapshot, (s.conn c).txn = .reading stamp snapshot →
    ∀ e k o, snapshot.get e k = some o → s.Settled o
  snapshotTracks : ∀ c stamp snapshot, (s.conn c).txn = .reading stamp snapshot →
    ∀ e k o n, snapshot.get e k = some o → s.committed.get e k = some n → Tracks o n
  snapshotCurrent : ∀ c stamp snapshot, (s.conn c).txn = .reading stamp snapshot →
    stamp ≤ s.commits ∧ (stamp = s.commits → snapshot = s.committed)

theorem inv_init [Std.LawfulEqOrd κ] (T : Tables ε κ (P × Nat)) :
    Inv (State.init T : State ε κ P ρ) where
  lock c := by simp [State.init]
  resting c _ := rfl
  committedSettled e k n h d i hd := by
    obtain ⟨_, _, -, rfl⟩ := by simpa [State.init] using h
    cases hd
  knownSettled c e k o h := by simp [State.init, Connection.Knows] at h
  knownTracks c e k o n h := by simp [State.init, Connection.Knows] at h
  viewEvolves c view h := by simp [State.init] at h
  snapshotSettled c stamp snapshot h := by simp [State.init] at h
  snapshotTracks c stamp snapshot h := by simp [State.init] at h
  snapshotCurrent c stamp snapshot h := by simp [State.init] at h

/-! ### What the statements of one connection do -/

/-- A row some read of `c` sees was settled, or `c` inserted it. -/
theorem Inv.visible_settled (h : Inv s) {c : ρ} {e : ε} {k : κ}
    (ho : (s.visible c).get e k = some o) :
    s.Settled o ∨ s.Own c o := by
  unfold State.visible at ho
  split at ho
  case h_1 | h_2 => exact .inl (h.committedSettled e k o ho)
  case h_3 stamp snapshot htxn => exact .inl (h.snapshotSettled c _ _ htxn e k o ho)
  case h_4 view htxn =>
    obtain hown | ⟨o', ho', hborn, -⟩ := h.viewEvolves c _ htxn e k o ho
    · exact .inr hown
    · exact .inl fun d i hd => h.committedSettled e k o' ho' d i (hborn.trans hd)

/-- A row some read of `c` sees tracks the row `c` would write to. -/
theorem Inv.visible_tracks (h : Inv s) {c : ρ} {e : ε} {k : κ} {n : Row P (Birth ρ)}
    (ho : (s.visible c).get e k = some o) (hn : (s.base c).get e k = some n) : Tracks o n := by
  unfold State.visible at ho
  unfold State.base at hn
  split at ho <;> rename_i htxn <;> simp only [htxn] at hn
  case h_1 | h_2 | h_4 =>
    obtain rfl : o = n := by simpa [ho] using hn
    exact .refl o
  case h_3 stamp snapshot => exact h.snapshotTracks c _ _ htxn e k o n ho hn

/-- A write that is not refused works on the rows the invariant speaks about. -/
theorem Inv.base_of_writable (h : Inv s) {c : ρ} {R : Rows ε κ P (Birth ρ)}
    (hR : s.writable c = some R) :
    R = s.base c ∧ (s.writer = none ∨ s.writer = some c) := by
  unfold State.writable at hR
  unfold State.base
  split at hR <;> rename_i htxn <;> simp only [htxn]
  case h_1 view =>
    refine ⟨(Option.some.inj hR).symm, .inr ((h.lock c).2 ⟨view, htxn⟩)⟩
  case h_2 | h_3 =>
    split_ifs at hR with hw
    exact ⟨(Option.some.inj hR).symm, .inl hw⟩
  case h_4 stamp snapshot =>
    split_ifs at hR with hw
    obtain rfl := Option.some.inj hR
    exact ⟨(h.snapshotCurrent c _ _ htxn).2 hw.2, .inl hw.1⟩

/-- The row a write of `c` under a key would replace; `none` also if the write is refused. -/
def State.target (s : State ε κ P ρ) (c : ρ) (e : ε) (k : κ) : Option (Row P (Birth ρ)) :=
  (s.writable c).bind fun R => R.get e k

/-- A write of `c` under a key replaced the row `o` observed and nothing else. -/
def ReplacedObserved (s t : State ε κ P ρ) (c : ρ) (e : ε) (k : κ) (o : Row P (Birth ρ)) :
    Prop :=
  (t.conn c).answer = .ok 1 ∧ ∃ row, s.target c e k = some row ∧ row.born = o.born ∧
    row.version = o.version ∧ row.payload = o.payload

/-- A write of `c` was not executed: no row changed. -/
def Unchanged (s t : State ε κ P ρ) (c : ρ) : Prop :=
  t.committed = s.committed ∧ t.base c = s.base c

variable {c : ρ} {e : ε} {k : κ} {R : Rows ε κ P (Birth ρ)}

/-- What the target of a write is, where the write is not refused. -/
theorem target_of_writable (hR : s.writable c = some R) : s.target c e k = R.get e k := by
  simp [State.target, hR]

theorem target_of_refused (hR : s.writable c = none) : s.target c e k = none := by
  simp [State.target, hR]

/-- A known row of the target's birth and version has its payload. -/
theorem Inv.payload_eq (h : Inv s) {row : Row P (Birth ρ)} (hk : (s.conn c).Knows e k o)
    (hrow : s.target c e k = some row) (hborn : row.born = o.born)
    (hversion : row.version = o.version) : row.payload = o.payload := by
  obtain ⟨R, hR, hget⟩ := Option.bind_eq_some_iff.1 hrow
  rw [(h.base_of_writable hR).1] at hget
  exact (h.knownTracks c e k o row hk hget hborn).2 hversion.symm

variable [DecidableEq ρ]

omit [Std.TransOrd κ] in
@[simp]
theorem setConn_conn (s : State ε κ P ρ) (c : ρ) (x : Connection ε κ P ρ) :
    (s.setConn c x).conn = Function.update s.conn c x := rfl

omit [Std.TransOrd κ] in
@[simp]
theorem setConn_committed (s : State ε κ P ρ) (c : ρ) (x : Connection ε κ P ρ) :
    (s.setConn c x).committed = s.committed := rfl

omit [Std.TransOrd κ] in
theorem finished_setConn {c : ρ} {x : Connection ε κ P ρ} (hfin : (s.conn c).phase ≠ .finished)
    (hd : (s.conn d).phase = .finished) :
    ((s.setConn c x).conn d).phase = .finished := by
  have hne : d ≠ c := fun hdc => hfin (hdc ▸ hd)
  simpa [hne] using hd

omit [Std.TransOrd κ] in
theorem inserted_setConn {c : ρ} {x : Connection ε κ P ρ}
    (hins : (s.conn c).inserted ≤ x.inserted) :
    (s.conn d).inserted ≤ ((s.setConn c x).conn d).inserted := by
  by_cases hd : d = c
  · subst hd
    simpa using hins
  · simp [hd]

omit [Std.TransOrd κ] in
/-- A connection outside a reading transaction brings no snapshot. -/
theorem reading_setConn {c : ρ} {x : Connection ε κ P ρ}
    (hx : ∀ stamp snapshot, x.txn ≠ .reading stamp snapshot) :
    ∀ d stamp snapshot, ((s.setConn c x).conn d).txn = .reading stamp snapshot →
      (s.conn d).txn = .reading stamp snapshot := by
  intro d stamp snapshot hr
  by_cases hd : d = c
  · subst hd
    exact absurd (by simpa using hr) (hx stamp snapshot)
  · simpa [hd] using hr

/-- **Reads**: `c` issues no write, its transaction may begin or pin a snapshot, and it comes to
know rows it sees. -/
theorem Inv.local (h : Inv s) {c : ρ} {x : Connection ε κ P ρ} (hfin : (s.conn c).phase ≠ .finished)
    (hphase : x.phase = .running) (hins : x.inserted = (s.conn c).inserted)
    (htxn : x.txn = (s.conn c).txn ∨ (x.txn = .begun ∧ (s.conn c).txn = .autocommit) ∨
      (x.txn = .reading s.commits s.committed ∧ (s.conn c).txn = .begun))
    (hknow : ∀ e k o, x.Knows e k o →
      (s.conn c).Knows e k o ∨ (s.visible c).get e k = some o) :
    Inv (s.setConn c x) := by
  have hwriting : ∀ d view, (Function.update s.conn c x d).txn = .writing view ↔
      (s.conn d).txn = .writing view := by
    intro d view
    by_cases hd : d = c
    · subst hd
      obtain htxn | ⟨hx, hs⟩ | ⟨hx, hs⟩ := htxn
      · simp [htxn]
      · simp [hx, hs]
      · simp [hx, hs]
    · simp [hd]
  have hsettled : ∀ o, s.Settled o → (s.setConn c x).Settled o :=
    fun o => State.Settled.mono fun d => finished_setConn hfin
  have hown : ∀ d o, s.Own d o → (s.setConn c x).Own d o :=
    fun d o => State.Own.mono (inserted_setConn (Nat.le_of_eq hins.symm))
  have hbase : ∀ d, (s.setConn c x).base d = s.base d := by
    intro d
    have hw := hwriting d
    unfold State.base State.setConn
    split <;> rename_i htx
    · rw [(hw _).1 htx]
    · split <;> rename_i htx'
      · exact absurd ((hw _).2 htx') (htx _)
      · rfl
  have hknown : ∀ d e k o, (Function.update s.conn c x d).Knows e k o →
      (s.conn d).Knows e k o ∨ (s.visible d).get e k = some o := by
    intro d e k o hk
    by_cases hd : d = c
    · subst hd
      exact hknow e k o (by simpa using hk)
    · exact .inl (by simpa [hd] using hk)
  have hreading : ∀ d stamp snapshot,
      (Function.update s.conn c x d).txn = .reading stamp snapshot →
      (s.conn d).txn = .reading stamp snapshot ∨
        stamp = s.commits ∧ snapshot = s.committed := by
    intro d stamp snapshot hr
    by_cases hd : d = c
    · subst hd
      simp only [Function.update_self] at hr
      obtain htxn | ⟨hx, -⟩ | ⟨hx, -⟩ := htxn
      · exact .inl (htxn ▸ hr)
      · simp [hx] at hr
      · rw [hx] at hr
        cases hr
        exact .inr ⟨rfl, rfl⟩
    · exact .inl (by simpa [hd] using hr)
  constructor
  case lock => exact fun d => (h.lock d).trans (exists_congr fun view => (hwriting d view).symm)
  case resting =>
    intro d hd
    by_cases hdc : d = c
    · subst hdc
      simp [State.setConn, hphase] at hd
    · simpa [State.setConn, hdc] using h.resting d (by simpa [State.setConn, hdc] using hd)
  case committedSettled => exact fun e k n hn => hsettled n (h.committedSettled e k n hn)
  case knownSettled =>
    intro d e k o hk
    have hor : s.Settled o ∨ s.Own d o := by
      obtain hk | hv := hknown d e k o hk
      · exact h.knownSettled d e k o hk
      · exact h.visible_settled hv
    exact hor.imp (hsettled o) (hown d o)
  case knownTracks =>
    intro d e k o n hk hn
    rw [hbase] at hn
    obtain hk | hv := hknown d e k o hk
    · exact h.knownTracks d e k o n hk hn
    · exact h.visible_tracks hv hn
  case viewEvolves =>
    intro d view hw e k n hn
    exact (h.viewEvolves d view ((hwriting d view).1 hw) e k n hn).imp_left (hown d n)
  case snapshotSettled =>
    intro d stamp snapshot hr e k o ho
    obtain hr | ⟨-, rfl⟩ := hreading d stamp snapshot hr
    · exact hsettled o (h.snapshotSettled d _ _ hr e k o ho)
    · exact hsettled o (h.committedSettled e k o ho)
  case snapshotTracks =>
    intro d stamp snapshot hr e k o n ho hn
    obtain hr | ⟨-, rfl⟩ := hreading d stamp snapshot hr
    · exact h.snapshotTracks d _ _ hr e k o n ho hn
    · obtain rfl : o = n := by simpa [State.setConn, ho] using hn
      exact .refl o
  case snapshotCurrent =>
    intro d stamp snapshot hr
    obtain hr | ⟨rfl, rfl⟩ := hreading d stamp snapshot hr
    · exact h.snapshotCurrent d _ _ hr
    · exact ⟨Nat.le_refl _, fun _ => rfl⟩

/-- **Writes**: `c` takes the lock, its view becomes `V`, and the row objects it holds afterwards
are advanced ones of before. -/
theorem Inv.written (h : Inv s) {c : ρ} {x : Connection ε κ P ρ} {R V : Rows ε κ P (Birth ρ)}
    (hR : s.writable c = some R) (hrun : (s.conn c).phase = .running) (hphase : x.phase = .running)
    (hins : (s.conn c).inserted ≤ x.inserted) (htxn : x.txn = .writing V)
    (hview : ∀ e k n, V.get e k = some n →
      (n.born = some (c, (s.conn c).inserted) ∧ (s.conn c).inserted < x.inserted) ∨
      ∃ m, R.get e k = some m ∧ m.born = n.born ∧ Tracks m n)
    (hknow : ∀ e k b, x.Knows e k b → ∃ a, (s.conn c).Knows e k a ∧ a.born = b.born ∧
      ∀ m n, R.get e k = some m → V.get e k = some n → Tracks a m → Tracks b n) :
    Inv { s.setConn c x with writer := some c } := by
  obtain ⟨hbase, hlock⟩ := h.base_of_writable hR
  have hfin : (s.conn c).phase ≠ .finished := by simp [hrun]
  have hother : ∀ d, d ≠ c → ∀ view, (s.conn d).txn ≠ .writing view := by
    intro d hd view hw
    have := (h.lock d).2 ⟨view, hw⟩
    obtain hl | hl := hlock
    · simp [hl] at this
    · exact hd (Option.some.inj (this.symm.trans hl))
  have hsettled : ∀ o, s.Settled o → (s.setConn c x).Settled o :=
    fun o => State.Settled.mono fun d => finished_setConn hfin
  have hown : ∀ d o, s.Own d o → (s.setConn c x).Own d o :=
    fun d o => State.Own.mono (inserted_setConn hins)
  have hreading := reading_setConn (s := s) (c := c) (x := x) (by simp [htxn])
  have hRown : ∀ e k m, R.get e k = some m → s.Own c m ∨
      ∃ o, s.committed.get e k = some o ∧ o.born = m.born ∧ Tracks o m := by
    intro e k m hm
    rw [hbase] at hm
    unfold State.base at hm
    split at hm
    · rename_i view hw
      exact h.viewEvolves c view hw e k m hm
    · exact .inr ⟨m, hm, rfl, .refl m⟩
  constructor
  case lock =>
    intro d
    by_cases hd : d = c
    · subst hd
      simp [htxn]
    · simpa [hd, Ne.symm hd] using hother d hd
  case resting =>
    intro d hd
    by_cases hdc : d = c
    · subst hdc
      simp [hphase] at hd
    · simpa [hdc] using h.resting d (by simpa [hdc] using hd)
  case committedSettled => exact fun e k n hn => hsettled n (h.committedSettled e k n hn)
  case knownSettled =>
    intro d e k o hk
    by_cases hd : d = c
    · subst hd
      obtain ⟨a, ha, hborn, -⟩ := hknow e k o (by simpa using hk)
      obtain hs | ⟨i, hi, hai⟩ := h.knownSettled d e k a ha
      · exact .inl (hsettled o fun d i hd => hs d i (hborn.trans hd))
      · exact .inr (hown d o ⟨i, hi, hborn.symm.trans hai⟩)
    · exact (h.knownSettled d e k o (by simpa [hd] using hk)).imp (hsettled o) (hown d o)
  case knownTracks =>
    intro d e k o n hk hn
    by_cases hd : d = c
    · subst hd
      obtain ⟨a, ha, hborn, hadv⟩ := hknow e k o (by simpa using hk)
      have hn : V.get e k = some n := by simpa [State.base, htxn] using hn
      obtain ⟨hnew, -⟩ | ⟨m, hm, hmn, htr⟩ := hview e k n hn
      · -- the row is the one just inserted, which no row object of before comes from
        intro ho
        obtain hs | ⟨i, hi, hai⟩ := h.knownSettled d e k a ha
        · exact absurd (hs d _ (hborn.trans (ho.symm.trans hnew))) hfin
        · have := hai.symm.trans (hborn.trans (ho.symm.trans hnew))
          simp only [Option.some.injEq, Prod.mk.injEq, true_and] at this
          omega
      · exact hadv m n hm hn (h.knownTracks d e k a m ha (hbase ▸ hm))
    · have hk : (s.conn d).Knows e k o := by simpa [hd] using hk
      refine h.knownTracks d e k o n hk ?_
      have hw := hother d hd
      simpa [State.base, hd] using hn
  case viewEvolves =>
    intro d view hw e k n hn
    by_cases hd : d = c
    · subst hd
      obtain rfl : V = view := by simpa [htxn] using hw
      obtain ⟨hnew, hlt⟩ | ⟨m, hm, hmn, htr⟩ := hview e k n hn
      · exact .inl ⟨_, by simpa using hlt, hnew⟩
      · obtain ⟨i, hi, hborn⟩ | ⟨o, ho, hom, htr'⟩ := hRown e k m hm
        · exact .inl (hown d n ⟨i, hi, hmn.symm.trans hborn⟩)
        · exact .inr ⟨o, ho, hom.trans hmn, htr'.trans htr hmn⟩
    · exact absurd (by simpa [hd] using hw) (hother d hd view)
  case snapshotSettled =>
    intro d _ _ hr e k o ho
    exact hsettled o (h.snapshotSettled d _ _ (hreading _ _ _ hr) e k o ho)
  case snapshotTracks => exact fun d _ _ hr => h.snapshotTracks d _ _ (hreading _ _ _ hr)
  case snapshotCurrent => exact fun d _ _ hr => h.snapshotCurrent d _ _ (hreading _ _ _ hr)

/-- **The end of a run** that publishes nothing. -/
theorem Inv.closed (h : Inv s) {c : ρ} (hrun : (s.conn c).phase = .running) {w : Option ρ}
    (hw : w = if s.writer = some c then none else s.writer) :
    Inv { s.setConn c (s.conn c).close with writer := w } := by
  have hfin : (s.conn c).phase ≠ .finished := by simp [hrun]
  have hsettled : ∀ o, s.Settled o → (s.setConn c (s.conn c).close).Settled o :=
    fun o => State.Settled.mono fun d => finished_setConn hfin
  have hown : ∀ d o, s.Own d o → (s.setConn c (s.conn c).close).Own d o :=
    fun d o => State.Own.mono (inserted_setConn (x := (s.conn c).close) (Nat.le_refl _))
  have hreading := reading_setConn (s := s) (c := c) (x := (s.conn c).close)
    (by simp [Connection.close])
  constructor
  case lock =>
    intro d
    by_cases hd : d = c
    · subst hd
      by_cases hs : s.writer = some d <;> simp [hw, hs, Connection.close]
    · have hl := h.lock d
      by_cases hs : s.writer = some c
      · simpa [hw, hs, hd, Ne.symm hd] using hl
      · simpa [hw, hs, hd] using hl
  case resting =>
    intro d hd
    by_cases hdc : d = c
    · subst hdc
      simp [Connection.close]
    · simpa [hdc] using h.resting d (by simpa [hdc] using hd)
  case committedSettled => exact fun e k n hn => hsettled n (h.committedSettled e k n hn)
  case knownSettled =>
    intro d e k o hk
    by_cases hd : d = c
    · subst hd
      simp [Connection.Knows, Connection.close] at hk
    · exact (h.knownSettled d e k o (by simpa [hd] using hk)).imp (hsettled o) (hown d o)
  case knownTracks =>
    intro d e k o n hk hn
    by_cases hd : d = c
    · subst hd
      simp [Connection.Knows, Connection.close] at hk
    · exact h.knownTracks d e k o n (by simpa [hd] using hk) (by simpa [State.base, hd] using hn)
  case viewEvolves =>
    intro d view hv e k n hn
    by_cases hd : d = c
    · subst hd
      simp [Connection.close] at hv
    · exact (h.viewEvolves d view (by simpa [hd] using hv) e k n hn).imp_left (hown d n)
  case snapshotSettled =>
    intro d _ _ hr e k o ho
    exact hsettled o (h.snapshotSettled d _ _ (hreading _ _ _ hr) e k o ho)
  case snapshotTracks => exact fun d _ _ hr => h.snapshotTracks d _ _ (hreading _ _ _ hr)
  case snapshotCurrent => exact fun d _ _ hr => h.snapshotCurrent d _ _ (hreading _ _ _ hr)

/-- **Commit**: the view of `c` becomes the store, and no row object or snapshot of another
connection is of a row that `c` inserted. -/
theorem Inv.published (h : Inv s) {c : ρ} (hrun : (s.conn c).phase = .running)
    {view : Rows ε κ P (Birth ρ)} (hview : (s.conn c).txn = .writing view) :
    Inv { s.setConn c (s.conn c).close with
      committed := view, commits := s.commits + 1, writer := none } := by
  have hfin : (s.conn c).phase ≠ .finished := by simp [hrun]
  have hw : s.writer = some c := (h.lock c).2 ⟨view, hview⟩
  have hnone : ∀ d V, d ≠ c → (s.conn d).txn ≠ .writing V := by
    intro d V hd hV
    exact hd (Option.some.inj (((h.lock d).2 ⟨V, hV⟩).symm.trans hw))
  have hclosed := h.closed hrun (w := none) (by simp [hw])
  have hdone : ∀ n, s.Own c n → (s.setConn c (s.conn c).close).Settled n := by
    rintro n ⟨i, -, hborn⟩ d j hd
    obtain ⟨rfl, -⟩ : c = d ∧ i = j := by simpa [hborn] using hd
    simp [Connection.close]
  -- a settled row object of another connection tracks the rows of the view
  have htrack : ∀ o e k n, s.Settled o ∨ (∃ d, d ≠ c ∧ s.Own d o) →
      (∀ m, s.committed.get e k = some m → Tracks o m) → view.get e k = some n →
      Tracks o n := by
    intro o e k n ho hom hn hborn
    obtain ⟨i, -, hi⟩ | ⟨m, hm, hmn, htr⟩ := h.viewEvolves c view hview e k n hn
    · have hoc := hborn.symm.trans hi
      obtain hs | ⟨d, hd, j, -, hj⟩ := ho
      · exact absurd (hs c i hoc) hfin
      · rw [hoc] at hj
        obtain ⟨hcd, -⟩ : c = d ∧ i = j := by simpa using hj
        exact absurd hcd.symm hd
    · exact ((hom m hm).trans htr hmn) hborn
  constructor
  case lock =>
    intro d
    have := hclosed.lock d
    simpa using this
  case resting => exact fun d hd => hclosed.resting d hd
  case committedSettled =>
    intro e k n hn
    obtain hown | ⟨m, hm, hmn, -⟩ := h.viewEvolves c view hview e k n hn
    · exact hdone n hown
    · exact fun d i hd => hclosed.committedSettled e k m hm d i (hmn.trans hd)
  case knownSettled => exact fun d e k o hk => hclosed.knownSettled d e k o hk
  case knownTracks =>
    intro d e k o n hk hn
    by_cases hd : d = c
    · subst hd
      simp [Connection.Knows, Connection.close] at hk
    have hk : (s.conn d).Knows e k o := by simpa [hd] using hk
    refine htrack o e k n ((h.knownSettled d e k o hk).imp_right fun hown => ⟨d, hd, hown⟩)
      (fun m hm => h.knownTracks d e k o m hk ?_) ?_
    · unfold State.base
      split
      · rename_i V hV
        exact absurd hV (hnone d V hd)
      · exact hm
    · unfold State.base at hn
      split at hn
      · rename_i V hV
        exact absurd (by simpa [hd] using hV) (hnone d V hd)
      · exact hn
  case viewEvolves =>
    intro d V hV
    by_cases hd : d = c
    · subst hd
      simp [Connection.close] at hV
    · exact absurd (by simpa [hd] using hV) (hnone d V hd)
  case snapshotSettled => exact fun d stamp R hr => hclosed.snapshotSettled d stamp R hr
  case snapshotTracks =>
    intro d stamp R hr e k o n ho hn
    have hr := reading_setConn (s := s) (by simp [Connection.close]) d stamp R hr
    exact htrack o e k n (.inl (h.snapshotSettled d stamp R hr e k o ho))
      (fun m hm => h.snapshotTracks d stamp R hr e k o m ho hm) hn
  case snapshotCurrent =>
    intro d stamp R hr
    have := (hclosed.snapshotCurrent d stamp R hr).1
    simp only [State.setConn] at this
    exact ⟨by simp only; omega, fun hs => by simp only at hs; omega⟩

omit [Std.TransOrd κ] in
/-- A refused write changes no row. -/
theorem write_refused (hR : s.writable c = none) (f : Rows ε κ P (Birth ρ) →
      Rows ε κ P (Birth ρ) × (Connection ε κ P ρ → Connection ε κ P ρ)) :
    ((s.write c f).conn c).answer = .locked ∧ Unchanged s (s.write c f) c := by
  unfold State.write
  simp only [hR]
  refine ⟨by simp, by simp, ?_⟩
  unfold State.base
  simp only [setConn_conn, Function.update_self, setConn_committed]
  cases (s.conn c).txn <;> rfl

/-- An executed write that returns the rows it was given changes none. -/
theorem write_unchanged (h : Inv s) (hR : s.writable c = some R) {f : Rows ε κ P (Birth ρ) →
      Rows ε κ P (Birth ρ) × (Connection ε κ P ρ → Connection ε κ P ρ)} (hf : (f R).1 = R)
    (htxn : ∀ x, ((f R).2 x).txn = x.txn) :
    Unchanged s (s.write c f) c := by
  unfold State.write
  simp only [hR]
  refine ⟨by simp, ?_⟩
  rw [← (h.base_of_writable hR).1]
  simp [State.base, htxn, hf]

/-! ### The write statements -/

omit [Std.TransOrd κ] in
/-- What a write statement makes of the rows `R` and of the connection record `x` it runs on. -/
structure Writes [Std.TransOrd κ] (c : ρ) (R : Rows ε κ P (Birth ρ)) (x : Connection ε κ P ρ)
    (V : Rows ε κ P (Birth ρ)) (y : Connection ε κ P ρ) : Prop where
  phase : y.phase = x.phase
  txn : y.txn = x.txn
  inserted : x.inserted ≤ y.inserted
  view : ∀ e k n, V.get e k = some n →
    (n.born = some (c, x.inserted) ∧ x.inserted < y.inserted) ∨
    ∃ m, R.get e k = some m ∧ m.born = n.born ∧ Tracks m n
  know : ∀ e k b, y.Knows e k b → ∃ a, x.Knows e k a ∧ a.born = b.born ∧
    ∀ m n, R.get e k = some m → V.get e k = some n → Tracks a m → Tracks b n

variable {encodeId : κ → P} {payload : P} {x : Connection ε κ P ρ}

variable {y : Connection ε κ P ρ}

omit [DecidableEq ρ] in
/-- A statement that changes no row and no row object. -/
theorem Writes.same (hphase : y.phase = x.phase) (htxn : y.txn = x.txn)
    (hins : y.inserted = x.inserted) (hknow : ∀ e k b, y.Knows e k b → x.Knows e k b) :
    Writes c R x R y where
  phase := hphase
  txn := htxn
  inserted := Nat.le_of_eq hins.symm
  view e k n hn := .inr ⟨n, hn, rfl, .refl n⟩
  know e k b hb := ⟨b, hknow e k b hb, rfl, fun m n hm hn h => by
    obtain rfl : m = n := by simpa [hm] using hn
    exact h⟩

/-- A write statement keeps the invariant, executed or refused. -/
theorem Inv.write (h : Inv s) (hrun : (s.conn c).phase = .running) {f : Rows ε κ P (Birth ρ) →
      Rows ε κ P (Birth ρ) × (Connection ε κ P ρ → Connection ε κ P ρ)}
    (hf : ∀ R x, x.touch = none → x.inserted = (s.conn c).inserted →
      Writes c R x (f R).1 ((f R).2 x)) :
    Inv (s.write c f) := by
  have hsub : ∀ y : Connection ε κ P ρ, ∀ e k o, y.Knows e k o → y.bound = (s.conn c).bound →
      y.touch = none → (s.conn c).Knows e k o := by
    intro y e k o hk hbound htouch
    exact .inl (by simpa [Connection.Knows, hbound, htouch] using hk)
  unfold State.write
  split
  · refine h.local (by simp [hrun]) hrun rfl ?_ fun e k o hk => .inl (hsub _ e k o hk rfl rfl)
    simp only
    cases htxn : (s.conn c).txn with
    | autocommit => exact .inr (.inl ⟨rfl, rfl⟩)
    | begun | reading | writing => exact .inl rfl
  · rename_i R hR
    have hw := hf R { s.conn c with touch := none, txn := .writing (f R).1 } rfl rfl
    refine h.written hR hrun (hw.phase.trans hrun) hw.inserted hw.txn hw.view ?_
    intro e k b hb
    obtain ⟨a, ha, hborn, htr⟩ := hw.know e k b hb
    exact ⟨a, hsub _ e k a ha rfl rfl, hborn, htr⟩

/-- A read statement keeps the invariant, whatever rows it makes the connection know. -/
theorem Inv.read (h : Inv s) (hrun : (s.conn c).phase = .running) (hphase : x.phase = .running)
    (hins : x.inserted = (s.conn c).inserted) (htxn : x.txn = s.afterRead c)
    (hknow : ∀ e k o, x.Knows e k o →
      (s.conn c).Knows e k o ∨ (s.visible c).get e k = some o) :
    Inv (s.setConn c x) := by
  refine h.local (by simp [hrun]) hphase hins ?_ hknow
  unfold State.afterRead at htxn
  split at htxn <;> rename_i hs
  · exact .inr (.inr ⟨htxn, hs⟩)
  · exact .inl htxn

variable [DecidableEq ε] [DecidableEq κ] [Std.LawfulEqOrd κ]

omit [DecidableEq ρ] in
/-- An UPDATE, whether or not it advances the bound row object. -/
theorem writes_updateRow (hphase : y.phase = x.phase) (htxn : y.txn = x.txn)
    (hins : y.inserted = x.inserted) (htouch : y.touch = none)
    (hbound : y.bound = x.bound ∨ y.bound = (x.advanceBound e k payload).bound) :
    Writes c R x (updateRow R e k payload).1 y where
  phase := hphase
  txn := htxn
  inserted := Nat.le_of_eq hins.symm
  view e' k' n hn := by
    rw [get_updateRow] at hn
    split_ifs at hn with h
    · obtain ⟨m, hm, rfl⟩ := Option.map_eq_some_iff.1 hn
      exact .inr ⟨m, by rw [h.1, h.2, hm], rfl, (Tracks.refl m).write payload⟩
    · exact .inr ⟨n, hn, rfl, .refl n⟩
  know e' k' b hb := by
    have hb : y.bound e' k' = some b := by simpa [Connection.Knows, htouch] using hb
    have hget := get_updateRow R e e' k k' payload
    by_cases h : e' = e ∧ k' = k
    · obtain ⟨rfl, rfl⟩ := h
      have hwrite : ∀ m n, R.get e' k' = some m →
          (updateRow R e' k' payload).1.get e' k' = some n → n = m.updated payload := by
        intro m n hm hn
        simpa [get_updateRow, hm, eq_comm] using hn
      obtain hbound | hbound := hbound
      · refine ⟨b, .inl (hbound ▸ hb), rfl, fun m n hm hn htr => ?_⟩
        rw [hwrite m n hm hn]
        exact htr.write payload
      · obtain ⟨a, ha, rfl⟩ : ∃ a, x.bound e' k' = some a ∧ advance payload a = b := by
          simpa [hbound, Connection.advanceBound] using hb
        refine ⟨a, .inl ha, rfl, fun m n hm hn htr => ?_⟩
        rw [hwrite m n hm hn]
        exact htr.advance payload
    · have hb : x.bound e' k' = some b := by
        obtain hbound | hbound := hbound
        · exact hbound ▸ hb
        · simpa [hbound, Connection.advanceBound, h] using hb
      refine ⟨b, .inl hb, rfl, fun m n hm hn htr => ?_⟩
      obtain rfl : m = n := by simpa [hget, h, hm] using hn
      exact htr

omit [DecidableEq ρ] [Std.LawfulEqOrd κ] in
/-- The two outcomes of the UPDATE of an `update`. -/
theorem touchWrite_cases (encodeId : κ → P) (e : ε) (k : κ)
    (current : Option (Row P (Birth ρ))) (R : Rows ε κ P (Birth ρ)) :
    (∃ payload row, R.get e k = some row ∧ touchWrite encodeId e k current R =
      ((updateRow R e k payload).1, fun x => { x.advanceBound e k payload with answer := .ok 1 })) ∨
    (R.get e k = none ∧
      touchWrite encodeId e k current R = (R, fun x => { x with answer := .ok 0 })) := by
  unfold touchWrite
  cases hrow : R.get e k with
  | some row =>
    exact .inl ⟨(current.map Row.payload).getD (encodeId k), row, rfl, by simp [updateRow, hrow]⟩
  | none => exact .inr ⟨rfl, by simp [updateRow, hrow]⟩

omit [DecidableEq ρ] [Std.LawfulEqOrd κ] in
/-- The two outcomes of a versioned `persist`. -/
theorem persistWrite_cases (e : ε) (k : κ) (payload : P) (version : Nat)
    (R : Rows ε κ P (Birth ρ)) :
    (∃ row, R.get e k = some row ∧ row.version = version ∧ persistWrite e k payload version R =
      ((updateRow R e k payload).1, fun x => { x.advanceBound e k payload with answer := .ok 1 })) ∨
    ((∀ row, R.get e k = some row → row.version ≠ version) ∧
      persistWrite e k payload version R = (R, fun x => { x with answer := .writeConflict })) := by
  unfold persistWrite
  cases hrow : R.get e k with
  | none => exact .inr ⟨by simp, by simp [updateRowVersioned, hrow]⟩
  | some row =>
    by_cases hv : row.version = version
    · exact .inl ⟨row, rfl, hv, by simp [updateRowVersioned, updateRow, hrow, hv]⟩
    · exact .inr ⟨by simpa using hv, by simp [updateRowVersioned, hrow, hv]⟩

omit [DecidableEq ρ] in
theorem writes_touchWrite (current : Option (Row P (Birth ρ))) (hx : x.touch = none) :
    Writes c R x (touchWrite encodeId e k current R).1
      ((touchWrite encodeId e k current R).2 x) := by
  obtain ⟨payload, row, -, heq⟩ | ⟨-, heq⟩ := touchWrite_cases encodeId e k current R
  · rw [heq]
    exact writes_updateRow rfl rfl rfl hx (.inr rfl)
  · rw [heq]
    exact Writes.same rfl rfl rfl fun _ _ _ hb => hb

omit [DecidableEq ρ] in
theorem writes_persistWrite (version : Nat) (hx : x.touch = none) :
    Writes c R x (persistWrite e k payload version R).1
      ((persistWrite e k payload version R).2 x) := by
  obtain ⟨row, -, -, heq⟩ | ⟨-, heq⟩ := persistWrite_cases e k payload version R
  · rw [heq]
    exact writes_updateRow rfl rfl rfl hx (.inr rfl)
  · rw [heq]
    exact Writes.same rfl rfl rfl fun _ _ _ hb => hb

omit [DecidableEq ρ] in
theorem writes_persistCreatedWrite (hx : x.touch = none) :
    Writes c R x (persistCreatedWrite e k payload R).1
      ((persistCreatedWrite e k payload R).2 x) :=
  writes_updateRow rfl rfl rfl hx (.inl rfl)

omit [DecidableEq ρ] in
theorem writes_deleteWrite :
    Writes c R x (deleteWrite (ρ := ρ) e k R).1 ((deleteWrite e k R).2 x) where
  phase := rfl
  txn := rfl
  inserted := Nat.le_refl _
  view e' k' n hn := by
    simp only [deleteWrite, get_deleteRow] at hn
    split_ifs at hn
    exact .inr ⟨n, hn, rfl, .refl n⟩
  know e' k' b hb := by
    refine ⟨b, hb, rfl, fun m n hm hn htr => ?_⟩
    simp only [deleteWrite, get_deleteRow] at hn
    split_ifs at hn
    obtain rfl : m = n := by simpa [hm] using hn
    exact htr

omit [DecidableEq ρ] in
theorem writes_createWrite :
    Writes c R x (createWrite encodeId c e k x.inserted R).1
      ((createWrite encodeId c e k x.inserted R).2 x) := by
  unfold createWrite
  split
  · rename_i V hV
    refine ⟨rfl, rfl, Nat.le_succ _, fun e' k' n hn => ?_, fun e' k' b hb => ?_⟩
    · obtain ⟨-, hget⟩ := get_insertRow hV e' k'
      rw [hget] at hn
      split_ifs at hn
      · obtain rfl := Option.some.inj hn
        exact .inl ⟨rfl, Nat.lt_succ_self _⟩
      · exact .inr ⟨n, hn, rfl, .refl n⟩
    · refine ⟨b, hb, rfl, fun m n hm hn htr => ?_⟩
      obtain ⟨hnone, hget⟩ := get_insertRow hV e' k'
      rw [hget] at hn
      split_ifs at hn with h
      · rw [h.1, h.2, hnone] at hm
        cases hm
      · obtain rfl : m = n := by simpa [hm] using hn
        exact htr
  · exact Writes.same rfl rfl rfl fun _ _ _ hb => hb

/-- **Every step keeps the invariant.** -/
theorem inv_step (h : Inv s) (ha : step encodeId s a = some t) : Inv t := by
  cases a with
  | begin c =>
    simp only [step] at ha
    split_ifs at ha with hp
    obtain rfl := Option.some.inj ha
    exact h.local (by simp [hp]) rfl rfl (.inl rfl) fun e k o hk => .inl hk
  | read c e k =>
    simp only [step] at ha
    split_ifs at ha with hp
    obtain rfl := Option.some.inj ha
    unfold selectRow Connection.bindRow
    split
    · exact h.read hp.1 hp.1 rfl rfl fun e k o hk => .inl hk
    · rename_i row hrow
      refine h.read hp.1 hp.1 rfl rfl fun e' k' o hk => ?_
      by_cases hek : e' = e ∧ k' = k
      · obtain ⟨rfl, rfl⟩ := hek
        obtain rfl : row = o := by simpa [Connection.Knows, hp.2] using hk
        exact .inr hrow
      · exact .inl (by simpa [Connection.Knows, hek] using hk)
  | query c e =>
    simp only [step] at ha
    split_ifs at ha with hp
    obtain rfl := Option.some.inj ha
    exact h.read hp.1 hp.1 rfl rfl fun e k o hk => .inl hk
  | touchSelect c e k =>
    simp only [step] at ha
    split_ifs at ha with hp
    obtain rfl := Option.some.inj ha
    refine h.read hp.1 hp.1 rfl rfl fun e' k' o hk => ?_
    obtain hb | ht := hk
    · exact .inl (.inl hb)
    · obtain ⟨rfl, rfl, hrow⟩ : e = e' ∧ k = k' ∧ selectRow (s.visible c) e k = some o := by
        simpa using ht
      exact .inr hrow
  | touchUpdate c =>
    simp only [step] at ha
    split at ha
    · rename_i e k current hrun htouch
      obtain rfl := Option.some.inj ha
      exact h.write hrun fun R x hx _ => writes_touchWrite current hx
    · cases ha
  | delete c e k =>
    simp only [step] at ha
    split_ifs at ha with hp
    obtain rfl := Option.some.inj ha
    exact h.write hp.1 fun R x _ _ => writes_deleteWrite
  | create c e k =>
    simp only [step] at ha
    split_ifs at ha with hp
    obtain rfl := Option.some.inj ha
    refine h.write hp.1 fun R x _ hins => ?_
    rw [← hins]
    exact writes_createWrite
  | persist c e k payload =>
    simp only [step] at ha
    split at ha
    · split_ifs at ha with hp
      obtain rfl := Option.some.inj ha
      exact h.write hp.1 fun R x hx _ => writes_persistWrite _ hx
    · cases ha
  | persistCreated c e k payload =>
    simp only [step] at ha
    split_ifs at ha with hp
    obtain rfl := Option.some.inj ha
    exact h.write hp.1 fun R x hx _ => writes_persistCreatedWrite hx
  | commit c =>
    simp only [step] at ha
    split_ifs at ha with hp
    split at ha <;> rename_i htxn <;> obtain rfl := Option.some.inj ha
    · exact h.published hp.1 htxn
    · have hw : s.writer ≠ some c := fun hw => by
        obtain ⟨view, hv⟩ := (h.lock c).1 hw
        exact htxn view hv
      exact h.closed hp.1 (w := s.writer) (by simp [hw])
  | rollback c =>
    simp only [step] at ha
    split_ifs at ha with hp
    split at ha <;> rename_i htxn <;> obtain rfl := Option.some.inj ha
    · have hw : s.writer = some c := (h.lock c).2 ⟨_, htxn⟩
      exact h.closed hp.1 (w := none) (by simp [hw])
    · have hw : s.writer ≠ some c := fun hw => by
        obtain ⟨view, hv⟩ := (h.lock c).1 hw
        exact htxn view hv
      exact h.closed hp.1 (w := s.writer) (by simp [hw])

/-! ### Frames -/

omit [Std.LawfulEqOrd κ] [Std.TransOrd κ] [DecidableEq ε] [DecidableEq κ] in
theorem conn_write (hd : d ≠ c) (f : Rows ε κ P (Birth ρ) →
      Rows ε κ P (Birth ρ) × (Connection ε κ P ρ → Connection ε κ P ρ)) :
    (s.write c f).conn d = s.conn d := by
  unfold State.write
  split <;> simp [hd]

omit [Std.LawfulEqOrd κ] [Std.TransOrd κ] [DecidableEq ε] [DecidableEq κ] in
theorem committed_write (f : Rows ε κ P (Birth ρ) →
      Rows ε κ P (Birth ρ) × (Connection ε κ P ρ → Connection ε κ P ρ)) :
    (s.write c f).committed = s.committed := by
  unfold State.write
  split <;> rfl

omit [Std.LawfulEqOrd κ] in
/-- A step leaves all connections alone but its own. -/
theorem conn_of_step (ha : step encodeId s a = some t) (hd : d ≠ a.conn) : t.conn d = s.conn d := by
  cases a with
  | begin c | read c e k | query c e | touchSelect c e k =>
    simp only [step] at ha
    split_ifs at ha
    obtain rfl := Option.some.inj ha
    exact Function.update_of_ne hd _ _
  | touchUpdate c =>
    simp only [step] at ha
    split at ha
    · obtain rfl := Option.some.inj ha
      exact conn_write hd _
    · cases ha
  | delete c e k | create c e k | persistCreated c e k payload =>
    simp only [step] at ha
    split_ifs at ha
    obtain rfl := Option.some.inj ha
    exact conn_write hd _
  | persist c e k payload =>
    simp only [step] at ha
    split at ha
    · split_ifs at ha
      obtain rfl := Option.some.inj ha
      exact conn_write hd _
    · cases ha
  | commit c | rollback c =>
    simp only [step] at ha
    split_ifs at ha
    split at ha <;> obtain rfl := Option.some.inj ha <;> exact Function.update_of_ne hd _ _

omit [Std.LawfulEqOrd κ] in
/-- Only a commit changes what is committed. -/
theorem committed_of_step (ha : step encodeId s a = some t) : t.committed = s.committed ∨
      a = .commit a.conn ∧ ∃ view, (s.conn a.conn).txn = .writing view ∧ t.committed = view := by
  cases a with
  | begin c | read c e k | query c e | touchSelect c e k =>
    simp only [step] at ha
    split_ifs at ha
    obtain rfl := Option.some.inj ha
    exact .inl rfl
  | touchUpdate c =>
    simp only [step] at ha
    split at ha
    · obtain rfl := Option.some.inj ha
      exact .inl (committed_write _)
    · cases ha
  | delete c e k | create c e k | persistCreated c e k payload =>
    simp only [step] at ha
    split_ifs at ha
    obtain rfl := Option.some.inj ha
    exact .inl (committed_write _)
  | persist c e k payload =>
    simp only [step] at ha
    split at ha
    · split_ifs at ha
      obtain rfl := Option.some.inj ha
      exact .inl (committed_write _)
    · cases ha
  | commit c =>
    simp only [step] at ha
    split_ifs at ha
    split at ha
    · next view htxn =>
      obtain rfl := Option.some.inj ha
      exact .inr ⟨rfl, view, htxn, rfl⟩
    · obtain rfl := Option.some.inj ha
      exact .inl rfl
  | rollback c =>
    simp only [step] at ha
    split_ifs at ha
    split at ha <;> obtain rfl := Option.some.inj ha <;> exact .inl rfl

/-! ### Lost updates -/

/-- What a step owes its run: a `set` or an `update` replaces the row its run last observed
under that key, or it fails (an `update` also by affecting no row) and changes nothing. -/
def ReplacesObserved (s : State ε κ P ρ) (a : Action ε κ P ρ) (t : State ε κ P ρ) : Prop :=
  match a with
  | .persist c e k _ =>
    match (s.conn c).bound e k with
    | some b => ReplacedObserved s t c e k b ∨
        ((t.conn c).answer = .writeConflict ∨ (t.conn c).answer = .locked) ∧ Unchanged s t c
    | none => True
  | .touchUpdate c =>
    match (s.conn c).touch with
    | some (e, k, current) => (∃ o, current = some o ∧ ReplacedObserved s t c e k o) ∨
        ((t.conn c).answer = .ok 0 ∨ (t.conn c).answer = .locked) ∧ Unchanged s t c
    | none => True
  | _ => True

/-- The condition on a step: `persist` does not meet another row under its key that has counted up
to the bound version, and `update` meets the row and version its SELECT found, or no row. -/
def Undisturbed (s : State ε κ P ρ) : Action ε κ P ρ → Prop
  | .persist c e k _ =>
    match (s.conn c).bound e k with
    | some b => ∀ row, s.target c e k = some row → row.version = b.version → row.born = b.born
    | none => True
  | .touchUpdate c =>
    match (s.conn c).touch with
    | some (e, k, current) => ∀ row, s.target c e k = some row →
        ∃ o, current = some o ∧ row.born = o.born ∧ row.version = o.version
    | none => True
  | _ => True

omit [Std.LawfulEqOrd κ] in
theorem replacesObserved_iff_undisturbed_of_inv (h : Inv s) (ha : step encodeId s a = some t) :
    ReplacesObserved s a t ↔ Undisturbed s a := by
  cases a with
  | begin | read | query | touchSelect | delete | create | persistCreated | commit | rollback =>
    exact Iff.rfl
  | persist c e k payload =>
    simp only [step] at ha
    split at ha
    next b hb =>
      split_ifs at ha with hp
      obtain rfl := Option.some.inj ha
      simp only [ReplacesObserved, Undisturbed, hb]
      cases hR : s.writable c with
      | none =>
        have hrefused := write_refused hR (persistWrite e k payload b.version)
        simp only [target_of_refused hR, reduceCtorEq, false_implies, implies_true, iff_true]
        exact .inr ⟨.inr hrefused.1, hrefused.2⟩
      | some R =>
        have htarget : s.target c e k = R.get e k := target_of_writable hR
        obtain ⟨row, hrow, hv, heq⟩ | ⟨hne, heq⟩ := persistWrite_cases e k payload b.version R
        · have hok : ((s.write c (persistWrite e k payload b.version)).conn c).answer = .ok 1 := by
            simp [State.write, hR, heq]
          simp only [ReplacedObserved, hok, htarget, hrow, reduceCtorEq, or_self, false_and,
            or_false, true_and, Option.some.injEq, exists_eq_left', forall_eq']
          refine ⟨fun hrep _ => hrep.1, fun hborn => ⟨hborn hv, hv, ?_⟩⟩
          exact h.payload_eq (.inl hb) (htarget.trans hrow) (hborn hv) hv
        · have hconflict : ((s.write c (persistWrite e k payload b.version)).conn c).answer =
              .writeConflict := by
            simp [State.write, hR, heq]
          refine ⟨fun _ row hrow hv => ?_, fun _ => .inr ⟨.inl hconflict, ?_⟩⟩
          · exact absurd hv (hne row (htarget.symm.trans hrow))
          · exact write_unchanged h hR (by rw [heq]) (by simp [heq])
    next => cases ha
  | touchUpdate c =>
    simp only [step] at ha
    split at ha
    next e k current hrun htouch =>
      obtain rfl := Option.some.inj ha
      simp only [ReplacesObserved, Undisturbed, htouch]
      cases hR : s.writable c with
      | none =>
        have hrefused := write_refused hR (touchWrite encodeId e k current)
        simp only [target_of_refused hR, reduceCtorEq, false_implies, implies_true, iff_true]
        exact .inr ⟨.inr hrefused.1, hrefused.2⟩
      | some R =>
        have htarget : s.target c e k = R.get e k := target_of_writable hR
        obtain ⟨payload, row, hrow, heq⟩ | ⟨hnone, heq⟩ :=
          touchWrite_cases encodeId e k current R
        · have hok : ((s.write c (touchWrite encodeId e k current)).conn c).answer = .ok 1 := by
            simp [State.write, hR, heq]
          simp only [ReplacedObserved, hok, htarget, hrow, Answer.ok.injEq, reduceCtorEq,
            Nat.one_ne_zero, or_self, false_and, or_false, true_and, Option.some.injEq,
            exists_eq_left', forall_eq']
          constructor
          · rintro ⟨o, ho, hborn, hv, -⟩
            exact ⟨o, ho, hborn, hv⟩
          · rintro ⟨o, ho, hborn, hv⟩
            have hk : (s.conn c).Knows e k o := .inr (ho ▸ htouch)
            exact ⟨o, ho, hborn, hv, h.payload_eq hk (htarget.trans hrow) hborn hv⟩
        · have hzero : ((s.write c (touchWrite encodeId e k current)).conn c).answer = .ok 0 := by
            simp [State.write, hR, heq]
          refine ⟨fun _ row hrow => ?_, fun _ => .inr ⟨.inl hzero, ?_⟩⟩
          · rw [htarget, hnone] at hrow
            cases hrow
          · exact write_unchanged h hR (by rw [heq]) (by simp [heq])
    next => cases ha

/-- **Lost updates.** In every state that runs on any number of connections reach, a step replaces
what its run observed, or fails, exactly if it is undisturbed. -/
theorem replacesObserved_iff_undisturbed (encodeId : κ → P) (T : Tables ε κ (P × Nat))
    {s t : State ε κ P ρ} {a : Action ε κ P ρ}
    (hrun : Reaches (step encodeId) anyAction (State.init T) s)
    (ha : step encodeId s a = some t) : ReplacesObserved s a t ↔ Undisturbed s a :=
  replacesObserved_iff_undisturbed_of_inv
    (hrun.invariant (fun hi _ => inv_step hi) (inv_init T)) ha

end Invariant

/-! ### Two runs on one row -/

/-- A store of one order. -/
def oneOrder : Tables String String (String × Nat) :=
  Tables.empty.set "Order" "o-1" ("qty: 1", 0)

/-- The text of a fresh row. -/
def encodeId (k : String) : String := "id: " ++ k

/-- A read order is set. -/
theorem replacesObserved_persist :
    ∃ s t : State String String String Nat,
      exec (step encodeId) (State.init oneOrder) [.begin 0, .read 0 "Order" "o-1"] = some s ∧
      step encodeId s (.persist 0 "Order" "o-1" "qty: 2") = some t ∧
      ReplacesObserved s (.persist 0 "Order" "o-1" "qty: 2") t := by
  refine ⟨_, _, rfl, rfl, (replacesObserved_iff_undisturbed encodeId oneOrder
    (reaches_of_exec (show exec _ _ [.begin 0, .read 0 "Order" "o-1"] = some _ from rfl)) rfl).2 ?_⟩
  intro row hrow _
  obtain rfl : (⟨"qty: 1", 0, none⟩ : Row String (Birth Nat)) = row := Option.some.inj hrow
  rfl

/-- Run 0 is in an `update` of the order, its SELECT done, when run 1 sets it and commits. -/
def staleUpdateRun : List (Action String String String Nat) :=
  [.begin 0, .touchSelect 0 "Order" "o-1", .begin 1, .read 1 "Order" "o-1",
   .persist 1 "Order" "o-1" "qty: 2", .commit 1]

/-- The UPDATE of run 0 then writes the payload its SELECT found over what run 1 committed. -/
theorem update_loses_an_update :
    ¬ ∀ s t : State String String String Nat, ∀ a,
      Reaches (step encodeId) anyAction (State.init oneOrder) s → step encodeId s a = some t →
      ReplacesObserved s a t := by
  intro hall
  let s := (exec (step encodeId) (State.init oneOrder) staleUpdateRun).get (by decide)
  have hs : exec (step encodeId) (State.init oneOrder) staleUpdateRun = some s :=
    (Option.some_get _).symm
  let t := (step encodeId s (.touchUpdate 0)).get (by decide)
  have ht : step encodeId s (.touchUpdate 0) = some t := (Option.some_get _).symm
  have hans : (t.conn 0).answer = .ok 1 := by decide
  obtain ⟨o, ho, -, row, hrow, -, -, hpayload⟩ | ⟨hans' | hans', -⟩ :=
    hall s t _ (reaches_of_exec hs) ht
  · obtain rfl : (⟨"qty: 1", 0, none⟩ : Row String (Birth Nat)) = o := Option.some.inj ho
    obtain rfl : (⟨"qty: 2", 1, none⟩ : Row String (Birth Nat)) = row :=
      Option.some.inj hrow
    exact absurd hpayload (by decide)
  · exact absurd (hans.symm.trans hans') (by decide)
  · exact absurd (hans.symm.trans hans') (by decide)

end Lnpl.Drivers.Connections
