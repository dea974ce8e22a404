import Mathlib.Data.Finset.Card
import Lnpl.Serve.Inflight

/-!
# The count of the requests in flight

`_inflight` is the number of admitted requests that are not finished, as long as the host closes no
streaming body before its first chunk.  Such a close drops the generator of `_inflight_wrap` without
running its `finally`, and the request is counted for ever.
-/

namespace Lnpl.Serve.Inflight

open Lnpl.Lib

variable {s t : Server} {r : Nat} {phase : Phase}

/-! ### Reading a server -/

@[simp] theorem request_set_self (x : Request) : (s.set r x).request r = x := by
  simp [Server.set]

theorem request_set_ne (x : Request) {q : Nat} (h : q ≠ r) :
    (s.set r x).request q = s.request q := by
  simp [Server.set, h]

theorem goto_inflightDecr : (s.inflightDecr r phase).goto r phase = s.inflightDecr r phase := by
  simp [Server.goto, Server.inflightDecr, Server.set]

/-! ### Blocks -/

variable {ran : List Final} {x : FinalizeOnClose}

/-- The lines of the log are all that is left to run. -/
theorem settle_logs (h : ∀ b ∈ ran, b = .log) : s.settle r phase ran = s.goto r phase := by
  induction ran with
  | nil => rfl
  | cons b ran ih =>
    obtain rfl : b = .log := h b List.mem_cons_self
    exact ih fun b hb => h b (List.mem_cons_of_mem _ hb)

theorem settle_logs_decr (h : ∀ b ∈ ran, b = .log) :
    s.settle r phase (ran ++ [.decr]) = s.inflightDecr r phase := by
  induction ran with
  | nil => exact goto_inflightDecr
  | cons b ran ih =>
    obtain rfl : b = .log := h b List.mem_cons_self
    exact ih fun b hb => h b (List.mem_cons_of_mem _ hb)

theorem settle_decr_logs (h : ∀ b ∈ ran, b = .log) :
    s.settle r phase (.decr :: ran) = s.inflightDecr r phase := by
  have hrest : (s.inflightDecr r phase).settle r phase ran = s.inflightDecr r phase := by
    rw [settle_logs h]
    exact goto_inflightDecr
  exact hrest

/-! ### Streaming bodies -/

/-- The generator of `_inflight_wrap` around generators that do not count. -/
def Wrapped (x : FinalizeOnClose) : Prop :=
  ∃ status inner, x.body = .forwarding .decr status inner ∧ (∀ b ∈ inner.blocks, b = .log) ∧
    (x.finished → status = .finished)

/-- What a call of the host on a streaming body does: it counts the request off, and the body is
over, or it does not, and the body stays over or not over. -/
def CountsOff (x y : FinalizeOnClose) (ran : List Final) : Prop :=
  Wrapped y ∧
    ((y.body.status = .finished ↔ x.body.status = .finished) ∧ (∀ b ∈ ran, b = .log) ∨
      x.body.status ≠ .finished ∧ y.body.status = .finished ∧
        ∀ (s : Server) r phase, s.settle r phase ran = s.inflightDecr r phase)

theorem Wrapped.countsOff_next (hx : Wrapped x) (turn : Turn Unit Unit) :
    CountsOff x (x.next turn).1 (x.next turn).2.2 := by
  obtain ⟨g, done⟩ := x
  obtain ⟨status, inner, rfl, hlog, hdone⟩ := hx
  have hran : ∀ b ∈ (inner.next turn).2.2, b = Final.log :=
    fun b hb => hlog b (Gen.mem_blocks_of_next turn inner hb)
  have hinner : ∀ b ∈ (inner.next turn).1.blocks, b = Final.log := by
    rw [Gen.blocks_next]
    exact hlog
  by_cases hstatus : status = .finished
  · subst hstatus
    exact ⟨⟨_, _, rfl, hlog, fun _ => rfl⟩, .inl ⟨Iff.rfl, by simp [FinalizeOnClose.next, Gen.next]⟩⟩
  · have hnot : done = false := by
      cases done with
      | false => rfl
      | true => exact absurd (hdone rfl) hstatus
    subst hnot
    obtain ⟨chunk, hnext⟩ | ⟨ended, hnext⟩ :=
      Gen.next_forwarding Final.decr inner turn hstatus
    · simp only [FinalizeOnClose.next, hnext]
      refine ⟨⟨_, _, rfl, hinner, by simp⟩, .inl ⟨?_, hran⟩⟩
      simp [Gen.status, hstatus]
    · have hover : ∀ (s : Server) r phase,
          s.settle r phase ((inner.next turn).2.2 ++ [.decr]) = s.inflightDecr r phase :=
        fun s r phase => settle_logs_decr hran
      cases ended with
      | returned =>
        simp only [FinalizeOnClose.next, hnext]
        exact ⟨⟨_, _, rfl, hinner, fun _ => rfl⟩, .inr ⟨hstatus, rfl, hover⟩⟩
      | yielded | raised =>
        simp only [FinalizeOnClose.next, hnext]
        exact ⟨⟨_, _, rfl, hinner, by simp⟩, .inr ⟨hstatus, rfl, hover⟩⟩

/-- A body that has been asked for its first chunk is counted off by its close. -/
theorem Wrapped.countsOff_close (hx : Wrapped x) (h : x.body.status ≠ .unstarted) :
    CountsOff x x.close.1 x.close.2 := by
  obtain ⟨g, done⟩ := x
  obtain ⟨status, inner, rfl, hlog, hdone⟩ := hx
  have hran : ∀ b ∈ inner.close.2, b = Final.log :=
    fun b hb => hlog b (Gen.mem_blocks_of_close inner hb)
  have hinner : ∀ b ∈ inner.close.1.blocks, b = Final.log := by
    rw [Gen.blocks_close]
    exact hlog
  cases status with
  | unstarted => exact absurd rfl h
  | finished =>
    exact ⟨⟨_, _, rfl, hinner, fun _ => rfl⟩, .inl ⟨Iff.rfl, by simp [FinalizeOnClose.close, Gen.close]⟩⟩
  | suspended =>
    exact ⟨⟨_, _, rfl, hinner, fun _ => rfl⟩,
      .inr ⟨by simp [Gen.status], rfl, fun s r phase => settle_decr_logs hran⟩⟩

/-- The body that the host is given. -/
theorem wrapped_subscription (jsonLog : Bool) :
    Wrapped { body := inflightGenerator (subscription jsonLog), finished := false } := by
  refine ⟨.unstarted, subscription jsonLog, rfl, ?_, by simp⟩
  cases jsonLog <;> simp [subscription, logSseThen, Gen.blocks]

/-! ### The invariant -/

/-- The request is counted in `_inflight`. -/
def Phase.counted (phase : Phase) : Bool := phase.admitted && !phase.finished

/-- A body of the server is in the shape `_inflight_wrap` gives it. -/
def Phase.Shaped : Phase → Prop
  | .wrapping (.stream g) => ∃ jsonLog, g = subscription jsonLog
  | .streaming x => Wrapped x
  | _ => True

/-- What holds of one request. -/
structure Request.Kept (x : Request) : Prop where
  shaped : x.phase.Shaped
  counted : x.increments = x.phase.admitted.toNat
  uncounted : x.decrements = x.phase.finished.toNat

/-- What holds in every state of a run whose bodies are begun before they are closed. -/
structure Inv (s : Server) : Prop where
  kept : ∀ r, (s.request r).Kept
  inflight : ∃ F : Finset Nat, (∀ r, r ∈ F ↔ (s.request r).phase.counted) ∧ s.inflight = F.card

theorem Phase.finished_streaming (hx : Wrapped x) :
    (Phase.streaming x).finished = decide (x.body.status = .finished) := by
  obtain ⟨status, inner, hbody, -, hdone⟩ := hx
  cases hx : x.finished with
  | false => simp [Phase.finished, hx]
  | true => simp [Phase.finished, hx, hbody, Gen.status, hdone hx]

theorem Phase.admitted_of_finished {phase : Phase} (h : phase.finished = true) :
    phase.admitted = true := by
  cases phase with
  | absent | arrived | refused => exact absurd h (by simp [Phase.finished])
  | _ => rfl

theorem Inv.kept_set (h : Inv s) {x : Request} (hx : x.Kept) (q : Nat) :
    ((s.set r x).request q).Kept := by
  by_cases hq : q = r
  · subst hq
    rw [request_set_self]
    exact hx
  · rw [request_set_ne x hq]
    exact h.kept q

/-- A request goes on without being counted or uncounted. -/
theorem Inv.set (h : Inv s) {x : Request} (hx : x.Kept)
    (hcounted : x.phase.counted = (s.request r).phase.counted) : Inv (s.set r x) := by
  obtain ⟨F, hF, hcard⟩ := h.inflight
  refine ⟨h.kept_set hx, F, fun q => ?_, hcard⟩
  by_cases hq : q = r
  · subst hq
    rw [request_set_self, hcounted]
    exact hF q
  · rw [request_set_ne x hq]
    exact hF q

theorem Inv.goto (h : Inv s) (hshape : phase.Shaped)
    (hadm : phase.admitted = (s.request r).phase.admitted)
    (hfin : phase.finished = (s.request r).phase.finished) : Inv (s.goto r phase) := by
  have hold := h.kept r
  have hcounted : phase.counted = (s.request r).phase.counted := by
    rw [Phase.counted, Phase.counted, hadm, hfin]
  apply h.set _ hcounted
  constructor
  · exact hshape
  · show (s.request r).increments = phase.admitted.toNat
    rw [hadm, hold.counted]
  · show (s.request r).decrements = phase.finished.toNat
    rw [hfin, hold.uncounted]

/-- A request is let past the gate. -/
theorem Inv.inflightIncr (h : Inv s) (hshape : phase.Shaped)
    (hold : (s.request r).phase.admitted = false) (hadm : phase.admitted = true)
    (hfin : phase.finished = false) : Inv (s.inflightIncr r phase) := by
  have hkept := h.kept r
  have hunfinished : (s.request r).phase.finished = false := by
    by_contra hne
    have hadm' := Phase.admitted_of_finished (Bool.eq_true_of_not_eq_false hne)
    rw [hold] at hadm'
    exact Bool.noConfusion hadm'
  obtain ⟨F, hF, hcard⟩ := h.inflight
  have hr : r ∉ F := by
    rw [hF, Phase.counted, hold]
    simp
  have hx : Request.Kept { s.request r with
      phase := phase, increments := (s.request r).increments + 1 } := by
    constructor
    · exact hshape
    · show (s.request r).increments + 1 = phase.admitted.toNat
      rw [hkept.counted, hold, hadm]
      rfl
    · show (s.request r).decrements = phase.finished.toNat
      rw [hkept.uncounted, hunfinished, hfin]
  refine ⟨h.kept_set hx, insert r F, fun q => ?_, ?_⟩
  · by_cases hq : q = r
    · subst hq
      have hself : ((s.inflightIncr q phase).request q).phase = phase :=
        congrArg Request.phase (request_set_self _)
      rw [hself, Phase.counted, hadm, hfin]
      simp
    · have hne : (s.inflightIncr r phase).request q = s.request q := request_set_ne _ hq
      rw [hne, Finset.mem_insert, hF q]
      simp [hq]
  · rw [Finset.card_insert_of_notMem hr]
    show s.inflight + 1 = _
    rw [hcard]
    rfl

/-- A request is counted off. -/
theorem Inv.inflightDecr (h : Inv s) (hshape : phase.Shaped)
    (hold : (s.request r).phase.counted = true) (hadm : phase.admitted = true)
    (hfin : phase.finished = true) : Inv (s.inflightDecr r phase) := by
  have hkept := h.kept r
  have hboth := hold
  rw [Phase.counted, Bool.and_eq_true, Bool.not_eq_true'] at hboth
  obtain ⟨hadm', hunfinished⟩ := hboth
  obtain ⟨F, hF, hcard⟩ := h.inflight
  have hr : r ∈ F := (hF r).mpr hold
  have hx : Request.Kept { s.request r with
      phase := phase, decrements := (s.request r).decrements + 1 } := by
    constructor
    · exact hshape
    · show (s.request r).increments = phase.admitted.toNat
      rw [hkept.counted, hadm', hadm]
    · show (s.request r).decrements + 1 = phase.finished.toNat
      rw [hkept.uncounted, hunfinished, hfin]
      rfl
  refine ⟨h.kept_set hx, F.erase r, fun q => ?_, ?_⟩
  · by_cases hq : q = r
    · subst hq
      have hself : ((s.inflightDecr q phase).request q).phase = phase :=
        congrArg Request.phase (request_set_self _)
      rw [hself, Phase.counted, hfin]
      simp
    · have hne : (s.inflightDecr r phase).request q = s.request q := request_set_ne _ hq
      rw [hne, Finset.mem_erase, hF q]
      simp [hq]
  · have hpos : 0 < F.card := Finset.card_pos.mpr ⟨r, hr⟩
    rw [Finset.card_erase_of_mem hr]
    show s.inflight - 1 = _
    rw [hcard]
    omega

/-- A call of the host on a streaming body. -/
theorem Inv.settle (h : Inv s) {y : FinalizeOnClose} (hphase : (s.request r).phase = .streaming x)
    (hxy : CountsOff x y ran) :
    Inv (s.settle r (.streaming y) ran) := by
  have hx : Wrapped x := by
    have hshaped := (h.kept r).shaped
    rw [hphase] at hshaped
    exact hshaped
  obtain ⟨hy, ⟨hover, hlog⟩ | ⟨hbefore, hafter, hrun⟩⟩ := hxy
  · rw [settle_logs hlog]
    apply h.goto (show Phase.Shaped (.streaming y) from hy)
    · rw [hphase]
      rfl
    · rw [hphase, Phase.finished_streaming hx, Phase.finished_streaming hy]
      simp [hover]
  · rw [hrun]
    apply h.inflightDecr (show Phase.Shaped (.streaming y) from hy)
    · rw [hphase, Phase.counted, Phase.finished_streaming hx]
      simp [hbefore, Phase.admitted]
    · rfl
    · rw [Phase.finished_streaming hy]
      simp [hafter]

theorem inv_init : Inv {} :=
  ⟨fun _ => ⟨trivial, rfl, rfl⟩, ∅, fun _ => by simp [Phase.counted, Phase.admitted], rfl⟩

theorem Inv.step {jsonLog : Bool} {a : Action} (h : Inv s) (hbegun : Begun s a)
    (hstep : step jsonLog s a = some t) : Inv t := by
  cases a with
  | arrive r ops =>
    simp only [Inflight.step] at hstep
    split at hstep
    · next hphase =>
      obtain rfl := Option.some.inj hstep
      have hkept : Request.Kept { phase := .arrived, ops := ops } := ⟨trivial, rfl, rfl⟩
      apply h.set hkept
      rw [hphase]
      rfl
    · cases hstep
  | enter r =>
    simp only [Inflight.step, Server.admit] at hstep
    split at hstep
    · next hphase =>
      have hold : (s.request r).phase.admitted = false := by
        rw [hphase]
        rfl
      split at hstep
      · obtain rfl := Option.some.inj hstep
        exact h.inflightIncr trivial hold rfl rfl
      · obtain rfl := Option.some.inj hstep
        split
        · exact h.goto trivial (by rw [hold]; rfl) (by rw [hphase]; rfl)
        · exact h.inflightIncr trivial hold rfl rfl
    · cases hstep
  | limit r limit =>
    simp only [Inflight.step] at hstep
    split at hstep
    · next hphase =>
      obtain rfl := Option.some.inj hstep
      exact h.goto trivial (by rw [hphase]; rfl) (by rw [hphase]; rfl)
    · next hphase _ =>
      obtain rfl := Option.some.inj hstep
      exact h.goto trivial (by rw [hphase]; rfl) (by rw [hphase]; rfl)
    · cases hstep
  | route r route =>
    simp only [Inflight.step] at hstep
    split at hstep
    · next hphase =>
      obtain rfl := Option.some.inj hstep
      exact h.goto trivial (by rw [hphase]; rfl) (by rw [hphase]; rfl)
    · next hphase =>
      obtain rfl := Option.some.inj hstep
      exact h.goto ⟨jsonLog, rfl⟩ (by rw [hphase]; rfl) (by rw [hphase]; rfl)
    · next hphase =>
      obtain rfl := Option.some.inj hstep
      exact h.goto trivial (by rw [hphase]; rfl) (by rw [hphase]; rfl)
    · cases hstep
  | leave r =>
    simp only [Inflight.step] at hstep
    split at hstep
    · next hphase =>
      obtain rfl := Option.some.inj hstep
      exact h.inflightDecr trivial (by rw [hphase]; rfl) rfl rfl
    · cases hstep
  | wrap r =>
    simp only [Inflight.step] at hstep
    split at hstep
    · next body hphase =>
      obtain rfl := Option.some.inj hstep
      cases body with
      | list => exact h.inflightDecr trivial (by rw [hphase]; rfl) rfl rfl
      | stream g =>
        have hshaped := (h.kept r).shaped
        rw [hphase] at hshaped
        obtain ⟨jsonLog, rfl⟩ := hshaped
        exact h.goto (wrapped_subscription jsonLog) (by rw [hphase]; rfl) (by rw [hphase]; rfl)
    · cases hstep
  | next r turn =>
    simp only [Inflight.step] at hstep
    split at hstep
    · next x hphase =>
      obtain rfl := Option.some.inj hstep
      have hx := (h.kept r).shaped
      rw [hphase] at hx
      exact h.settle hphase (Wrapped.countsOff_next hx turn)
    · cases hstep
  | close r =>
    simp only [Inflight.step] at hstep
    split at hstep
    · next x hphase =>
      obtain rfl := Option.some.inj hstep
      have hx := (h.kept r).shaped
      rw [hphase] at hx
      exact h.settle hphase (Wrapped.countsOff_close hx (hbegun x hphase))
    · cases hstep
  | beginShutdown =>
    obtain rfl := Option.some.inj hstep
    exact ⟨h.kept, h.inflight⟩

/-! ### What the invariant says -/

theorem waitForDrain_append {turns : List (Server × Bool)} (h : waitForDrain turns = none)
    (more : List (Server × Bool)) : waitForDrain (turns ++ more) = waitForDrain more := by
  induction turns with
  | nil => rfl
  | cons turn turns ih =>
    obtain ⟨s, expired⟩ := turn
    cases hturn : s.drainTurn expired with
    | some drained => simp [waitForDrain, hturn] at h
    | none =>
      simp only [waitForDrain, hturn, List.cons_append] at h ⊢
      exact ih h

theorem Inv.accounted (h : Inv s) : Accounted s := by
  obtain ⟨F, hF, hcard⟩ := h.inflight
  constructor
  · exact fun r => (h.kept r).counted
  · intro r
    rw [(h.kept r).counted, (h.kept r).uncounted]
    constructor
    · cases hfin : (s.request r).phase.finished with
      | false => exact Nat.zero_le _
      | true => rw [Phase.admitted_of_finished hfin]
    · intro hfin
      rw [hfin]
      rfl
  · rw [hcard]
    exact Int.natCast_nonneg _
  · intro turns expired hwait hdrained r hadm
    rw [waitForDrain_append hwait] at hdrained
    have hzero : F = ∅ := by
      by_contra hne
      have hpos : 0 < s.inflight := by
        rw [hcard]
        exact_mod_cast Finset.card_pos.mpr (Finset.nonempty_iff_ne_empty.mpr hne)
      cases expired <;> simp [waitForDrain, Server.drainTurn, hpos] at hdrained
    have hr : r ∉ F := by
      rw [hzero]
      simp
    rw [hF, Phase.counted, hadm] at hr
    simpa using hr

/-! ### After the shutdown has begun -/

/-- The step is about the request `r` and leaves it in `phase`. -/
structure Moves (s t : Server) (r : Nat) (phase : Phase) : Prop where
  shuttingDown : t.shuttingDown = s.shuttingDown
  phase : (t.request r).phase = phase
  ops : (t.request r).ops = (s.request r).ops
  other : ∀ q, q ≠ r → t.request q = s.request q

theorem moves_goto : Moves s (s.goto r phase) r phase where
  shuttingDown := rfl
  phase := by simp [Server.goto]
  ops := by simp [Server.goto]
  other := fun _ => request_set_ne _

theorem moves_inflightIncr : Moves s (s.inflightIncr r phase) r phase where
  shuttingDown := rfl
  phase := by simp [Server.inflightIncr]
  ops := by simp [Server.inflightIncr]
  other := fun _ => request_set_ne _

theorem moves_inflightDecr : Moves s (s.inflightDecr r phase) r phase where
  shuttingDown := rfl
  phase := by simp [Server.inflightDecr]
  ops := by simp [Server.inflightDecr]
  other := fun _ => request_set_ne _

theorem moves_settle (ran : List Final) : Moves s (s.settle r phase ran) r phase := by
  induction ran generalizing s with
  | nil => exact moves_goto
  | cons b ran ih =>
    cases b with
    | log => exact ih
    | decr =>
      have hfirst : Moves s (s.inflightDecr r phase) r phase := moves_inflightDecr
      have hrest := ih (s := s.inflightDecr r phase)
      exact ⟨hrest.shuttingDown.trans hfirst.shuttingDown, hrest.phase,
        hrest.ops.trans hfirst.ops, fun q hq => (hrest.other q hq).trans (hfirst.other q hq)⟩

/-- After the shutdown has begun: only ops requests are admitted that were not admitted in `s`. -/
structure Late (s t : Server) : Prop where
  begun : t.shuttingDown = true
  late : ∀ r, (t.request r).phase.admitted → (s.request r).phase.admitted ∨ (t.request r).ops

theorem Late.moves {u : Server} (h : Late s t) (hmoves : Moves t u r phase)
    (hadm : phase.admitted → (t.request r).phase.admitted ∨ (t.request r).ops) : Late s u := by
  refine ⟨hmoves.shuttingDown.trans h.begun, fun q hq => ?_⟩
  by_cases hqr : q = r
  · subst hqr
    rw [hmoves.phase] at hq
    rw [hmoves.ops]
    cases hadm hq with
    | inl hold => exact h.late q hold
    | inr hops => exact .inr hops
  · rw [hmoves.other q hqr] at hq ⊢
    exact h.late q hq

theorem Late.step {u : Server} {jsonLog : Bool} {a : Action} (h : Late s t)
    (hstep : step jsonLog t a = some u) : Late s u := by
  cases a with
  | arrive r ops =>
    simp only [Inflight.step] at hstep
    split at hstep
    · obtain rfl := Option.some.inj hstep
      refine ⟨h.begun, fun q hq => ?_⟩
      by_cases hqr : q = r
      · subst hqr
        rw [request_set_self] at hq
        exact absurd hq (by simp [Phase.admitted])
      · rw [request_set_ne _ hqr] at hq ⊢
        exact h.late q hq
    · cases hstep
  | enter r =>
    simp only [Inflight.step, Server.admit] at hstep
    split at hstep
    · split at hstep
      · next hops =>
        obtain rfl := Option.some.inj hstep
        exact h.moves moves_inflightIncr fun _ => .inr hops
      · rw [if_pos h.begun] at hstep
        obtain rfl := Option.some.inj hstep
        exact h.moves moves_goto fun hadm => absurd hadm (by simp [Phase.admitted])
    · cases hstep
  | limit r limit =>
    simp only [Inflight.step] at hstep
    split at hstep
    · next hphase =>
      obtain rfl := Option.some.inj hstep
      exact h.moves moves_goto fun _ => .inl (by rw [hphase]; rfl)
    · next hphase _ =>
      obtain rfl := Option.some.inj hstep
      exact h.moves moves_goto fun _ => .inl (by rw [hphase]; rfl)
    · cases hstep
  | route r route =>
    simp only [Inflight.step] at hstep
    split at hstep
    iterate 3
      · next hphase =>
        obtain rfl := Option.some.inj hstep
        exact h.moves moves_goto fun _ => .inl (by rw [hphase]; rfl)
    · cases hstep
  | leave r =>
    simp only [Inflight.step] at hstep
    split at hstep
    · next hphase =>
      obtain rfl := Option.some.inj hstep
      exact h.moves moves_inflightDecr fun _ => .inl (by rw [hphase]; rfl)
    · cases hstep
  | wrap r =>
    simp only [Inflight.step] at hstep
    split at hstep
    · next body hphase =>
      obtain rfl := Option.some.inj hstep
      cases body with
      | list => exact h.moves moves_inflightDecr fun _ => .inl (by rw [hphase]; rfl)
      | stream g => exact h.moves moves_goto fun _ => .inl (by rw [hphase]; rfl)
    · cases hstep
  | next r turn =>
    simp only [Inflight.step] at hstep
    split at hstep
    · next x hphase =>
      obtain rfl := Option.some.inj hstep
      exact h.moves (moves_settle _) fun _ => .inl (by rw [hphase]; rfl)
    · cases hstep
  | close r =>
    simp only [Inflight.step] at hstep
    split at hstep
    · next x hphase =>
      obtain rfl := Option.some.inj hstep
      exact h.moves (moves_settle _) fun _ => .inl (by rw [hphase]; rfl)
    · cases hstep
  | beginShutdown =>
    obtain rfl := Option.some.inj hstep
    exact ⟨rfl, h.late⟩

/-! ### The law -/

/-- A close before the first chunk leaves the request counted. -/
theorem Inv.not_accounted {jsonLog : Bool} {a : Action} (h : Inv s) (hbegun : ¬Begun s a)
    (hstep : Inflight.step jsonLog s a = some t) : ¬Accounted t := by
  cases a with
  | close r =>
    simp only [Begun, not_forall, not_not] at hbegun
    obtain ⟨x, hphase, hunstarted⟩ := hbegun
    have hx := (h.kept r).shaped
    rw [hphase] at hx
    obtain ⟨status, inner, hbody, -, hdone⟩ := id hx
    obtain rfl : status = .unstarted := by
      rw [hbody] at hunstarted
      exact hunstarted
    have hran : x.close.2 = [] := by
      rw [FinalizeOnClose.close, hbody]
      rfl
    simp only [Inflight.step, hphase, hran, Server.settle] at hstep
    obtain rfl := Option.some.inj hstep
    have hdecrements : ((s.goto r (.streaming x.close.1)).request r).decrements = 0 := by
      have hself : ((s.goto r (.streaming x.close.1)).request r).decrements =
          (s.request r).decrements := by simp [Server.goto]
      rw [hself, (h.kept r).uncounted, hphase, Phase.finished_streaming hx, hunstarted]
      rfl
    intro haccounted
    have hfinished : ((s.goto r (.streaming x.close.1)).request r).phase.finished := by
      rw [moves_goto.phase]
      rfl
    have hone := (haccounted.uncounted r).2 hfinished
    rw [hdecrements] at hone
    exact Nat.zero_ne_one hone
  | _ => exact absurd trivial hbegun

theorem inv_of_reaches {jsonLog : Bool} (h : Reaches (step jsonLog) Begun {} s) : Inv s :=
  h.invariant (fun hinv hbegun hstep => hinv.step hbegun hstep) inv_init

/-- A subscriber that is gone before the first chunk: it stays counted. -/
def closedEarly : List Action :=
  [.arrive 0 false, .enter 0, .limit 0 .admitted, .route 0 .stream, .wrap 0, .close 0]

end Lnpl.Serve.Inflight
