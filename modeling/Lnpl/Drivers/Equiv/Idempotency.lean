import Mathlib.Tactic.Linarith
import Lnpl.Drivers.Idempotency

/-!
# Exclusiveness of idempotency claims

`exec_idempotencyBegin` connects the interleaved statements with the uninterrupted call.  A claim
is in force (`State.Holds`) from its INSERT until its release or until `ttlMs` has passed since
its `created_at`.  `Respects` is what one step may do to the claims in force: an INSERT that is
answered "started" finds none on its key, and a row becomes done or is released by its holder.

Two requests that both read an expired row break it (`idempotency_not_exclusive`), because the
DELETE is not conditioned on the row that was read.  `respects_of_timely` proves it for every run
in which each clean-up DELETE still finds an expired row and each holder finishes or releases
before its own claim expires (`Timely`); the invariant is `Inv`.
-/

namespace Lnpl.Drivers.Idempotency

open Lnpl.Lib

variable {κ β ρ : Type} [DecidableEq κ] [DecidableEq ρ]

/-! ### The uninterrupted call -/

/-- The answer a request was given by `idempotency_begin`, once it has one. -/
def Phase.answer : Phase β → Option (Answer β)
  | .started _ | .finished _ => some .started
  | .refused a => some a
  | _ => none

/-- The statements of one request, executed in a row, are `idempotencyBegin`. -/
theorem exec_idempotencyBegin (ttlMs : Int) (key : ρ → κ) (s : State κ β ρ) (r : ρ)
    (hr : s.phase r = .idle) :
    ∃ as, (exec (step ttlMs key) s as).map (fun s' => ((s'.phase r).answer, s'.table)) =
      some (some (idempotencyBegin ttlMs s.table (key r) s.clock).1,
        (idempotencyBegin ttlMs s.table (key r) s.clock).2) := by
  cases hT : s.table (key r) with
  | none =>
    refine ⟨[.arrive r, .select r, .insert r], ?_⟩
    simp [exec, step, hr, hT, selectIdempotency, insertInProgress, idempotencyBegin, Phase.answer]
  | some c =>
    cases hf : c.fresh ttlMs s.clock with
    | true =>
      refine ⟨[.arrive r, .select r], ?_⟩
      simp [exec, step, hr, hT, selectIdempotency, hf, idempotencyBegin, Phase.answer]
    | false =>
      refine ⟨[.arrive r, .select r, .delete r, .insert r], ?_⟩
      simp [exec, step, hr, hT, selectIdempotency, hf, deleteIdempotency, insertInProgress,
        idempotencyBegin, Phase.answer]

/-! ### Claims in force -/

/-- `r` was answered "started", has not released its claim, and the TTL has not passed. -/
def State.Holds (ttlMs : Int) (s : State κ β ρ) (r : ρ) : Prop :=
  ∃ now, (s.phase r = .started now ∨ s.phase r = .finished now) ∧ s.clock < now + ttlMs

/-- What one step does to the claims in force. -/
structure Respects (ttlMs : Int) (key : ρ → κ) (s : State κ β ρ) (a : Action β ρ)
    (s' : State κ β ρ) : Prop where
  /-- an INSERT answered "started" finds no claim in force on its key -/
  alone : ∀ r now, a = .insert r → s'.phase r = .started now →
    ∀ r', r' ≠ r → key r' = key r → ¬ s.Holds ttlMs r'
  /-- a row becomes done only through the request that holds its claim -/
  done : ∀ k c', s'.table k = some c' → c'.status = .done →
    (∀ c, s.table k = some c → c.status ≠ .done) →
    ∃ r h b, a = .finish r h b ∧ key r = k ∧ s.owner k = some r ∧ s.Holds ttlMs r
  /-- a row is released only through the request that holds its claim -/
  released : ∀ r c, a = .release r → s.table (key r) = some c →
    s.owner (key r) = some r ∧ s.Holds ttlMs r

/-- The side condition on a step: a clean-up DELETE still finds a row that has expired for the
request that issues it, and a holder finishes or releases before its own claim expires. -/
def Timely (ttlMs : Int) (key : ρ → κ) (s : State κ β ρ) : Action β ρ → Prop
  | .delete r => ∀ now c, s.phase r = .expired now → s.table (key r) = some c →
      c.fresh ttlMs now = false
  | .finish r _ _ | .release r => ∀ now, s.phase r = .started now → s.clock < now + ttlMs
  | _ => True

/-! ### What a step does -/

/-- The `now_ms` a request works with. -/
def Phase.nowMs? : Phase β → Option Int
  | .arrived now | .expired now | .clear now | .started now | .finished now => some now
  | _ => none

/-- Everything a step can do, one disjunct per statement and outcome. -/
theorem step_cases {ttlMs : Int} {key : ρ → κ} {s s' : State κ β ρ} {a : Action β ρ}
    (h : step ttlMs key s a = some s') :
    (∃ d : Nat, a = .tick d ∧ s' = { s with clock := s.clock + d }) ∨
    (∃ r p, (∀ now, p ≠ .started now ∧ p ≠ .finished now) ∧
      (∀ now, p.nowMs? = some now → now = s.clock ∨ (s.phase r).nowMs? = some now) ∧
      (∀ now, s'.phase r ≠ .started now) ∧
      (a = .arrive r ∨ a = .select r ∨ a = .insert r) ∧
      s' = { s with phase := Function.update s.phase r p }) ∨
    (∃ r now, a = .delete r ∧ s.phase r = .expired now ∧
      s' = { s with table := deleteIdempotency s.table (key r),
                    owner := Function.update s.owner (key r) none,
                    phase := Function.update s.phase r (.clear now) }) ∨
    (∃ r now, a = .insert r ∧ s.phase r = .clear now ∧ s.table (key r) = none ∧
      ∃ T, insertInProgress s.table (key r) now = some T ∧
        s' = { s with table := T,
                      owner := Function.update s.owner (key r) (some r),
                      phase := Function.update s.phase r (.started now) }) ∨
    (∃ r now h b, a = .finish r h b ∧ s.phase r = .started now ∧
      s' = { s with table := updateDone s.table (key r) h b,
                    phase := Function.update s.phase r (.finished now) }) ∨
    (∃ r now, a = .release r ∧ s.phase r = .started now ∧
      s' = { s with table := deleteIdempotency s.table (key r),
                    owner := Function.update s.owner (key r) none,
                    phase := Function.update s.phase r .released }) := by
  cases a with
  | tick d => exact .inl ⟨d, rfl, by simpa [step] using h.symm⟩
  | arrive r =>
    simp only [step] at h
    split at h
    · refine .inr (.inl ⟨r, .arrived s.clock, by simp, by simp [Phase.nowMs?], ?_, .inl rfl, ?_⟩)
      · simp [← Option.some.inj h]
      · exact (Option.some.inj h).symm
    · cases h
  | select r =>
    simp only [step] at h
    split at h
    · rename_i now hp
      split at h
      · refine .inr (.inl ⟨r, .clear now, by simp, by simp [Phase.nowMs?, hp], ?_, ?_, ?_⟩)
        · simp [← Option.some.inj h]
        · simp
        · exact (Option.some.inj h).symm
      · rename_i c _
        refine .inr (.inl ⟨r, if c.fresh ttlMs now then .refused c.answer else .expired now,
          ?_, ?_, ?_, by simp, (Option.some.inj h).symm⟩)
        · intro now'; split_ifs <;> simp
        · intro now'; split_ifs <;> simp_all [Phase.nowMs?]
        · intro now'; rw [← Option.some.inj h]; simp; split_ifs <;> simp
    · cases h
  | delete r =>
    simp only [step] at h
    split at h
    · rename_i now hp
      exact .inr (.inr (.inl ⟨r, now, rfl, hp, (Option.some.inj h).symm⟩))
    · cases h
  | insert r =>
    simp only [step] at h
    split at h
    · rename_i now hp
      split at h
      · rename_i T hT
        refine .inr (.inr (.inr (.inl ⟨r, now, rfl, hp, ?_, T, hT, (Option.some.inj h).symm⟩)))
        cases hk : s.table (key r) with
        | none => rfl
        | some c => simp [insertInProgress, hk] at hT
      · refine .inr (.inl ⟨r, .refused .inProgress, by simp, by simp [Phase.nowMs?], ?_, by simp,
          (Option.some.inj h).symm⟩)
        simp [← Option.some.inj h]
    · cases h
  | finish r hs b =>
    simp only [step] at h
    split at h
    · rename_i now hp
      exact .inr (.inr (.inr (.inr (.inl ⟨r, now, hs, b, rfl, hp, (Option.some.inj h).symm⟩))))
    · cases h
  | release r =>
    simp only [step] at h
    split at h
    · rename_i now hp
      exact .inr (.inr (.inr (.inr (.inr ⟨r, now, rfl, hp, (Option.some.inj h).symm⟩))))
    · cases h

/-! ### The invariant -/

/-- Requests do not work with a time ahead of the clock, and the row of a claim in force is
stored under its key and owned by its holder. -/
structure Inv (ttlMs : Int) (key : ρ → κ) (s : State κ β ρ) : Prop where
  time : ∀ r now, (s.phase r).nowMs? = some now → now ≤ s.clock
  stored : ∀ r now, (s.phase r = .started now ∨ s.phase r = .finished now) →
    s.clock < now + ttlMs →
    s.owner (key r) = some r ∧ ∃ c, s.table (key r) = some c ∧ c.createdAt = now

omit [DecidableEq κ] [DecidableEq ρ] in
theorem inv_init (ttlMs : Int) (key : ρ → κ) (T : Table κ β) (clock : Int) :
    Inv ttlMs key (State.init T clock) where
  time r now h := by simp [State.init, Phase.nowMs?] at h
  stored r now h := by simp [State.init] at h

variable {ttlMs : Int} {key : ρ → κ} {s s' : State κ β ρ} {a : Action β ρ}

section

variable (hi : Inv ttlMs key s)
include hi

omit [DecidableEq κ] [DecidableEq ρ] in
/-- The holder of a claim owns the row under its key. -/
theorem Inv.owner_of_holds {r : ρ} (h : s.Holds ttlMs r) : s.owner (key r) = some r :=
  let ⟨now, hp, ht⟩ := h
  (hi.stored r now hp ht).1

omit [DecidableEq κ] [DecidableEq ρ] in
/-- A row that has expired for some request is in the way of no claim in force. -/
theorem Inv.not_holds_of_expired {r r' : ρ} {now : Int} (hnow : (s.phase r).nowMs? = some now)
    (hexp : ∀ c, s.table (key r) = some c → c.fresh ttlMs now = false) (hk : key r' = key r) :
    ¬ s.Holds ttlMs r' := by
  rintro ⟨now', hp, ht⟩
  obtain ⟨-, c, hc, rfl⟩ := hi.stored r' now' hp ht
  have hf := hexp c (hk ▸ hc)
  have hle := hi.time r now hnow
  simp only [Claim.fresh, decide_eq_false_iff_not, not_lt] at hf
  omega

/-- **Step lemma.** Every timely step keeps the invariant. -/
theorem inv_step (hC : Timely ttlMs key s a) (h : step ttlMs key s a = some s') :
    Inv ttlMs key s' := by
  obtain ⟨d, rfl, rfl⟩ | ⟨r, p, hp, hpt, -, -, rfl⟩ | ⟨r, now, rfl, hr, rfl⟩ |
    ⟨r, now, rfl, hr, hT, T, hins, rfl⟩ | ⟨r, now, hs, b, rfl, hr, rfl⟩ |
    ⟨r, now, rfl, hr, rfl⟩ := step_cases h
  · -- time passes: no new claim is in force
    constructor
    · intro r now hr
      have := hi.time r now hr
      simp only
      omega
    · intro r now hr hlt
      simp only at hlt
      exact hi.stored r now hr (by omega)
  · -- only a phase changes, and not to a claim
    constructor
    · intro r' now hr'
      simp only [Function.update_apply] at hr'
      split_ifs at hr' with hrr
      · rcases hpt now hr' with rfl | h'
        · exact le_refl _
        · exact hi.time r now h'
      · exact hi.time r' now hr'
    · intro r' now hr' hlt
      simp only [Function.update_apply] at hr'
      split_ifs at hr' with hrr
      · exact absurd hr' (by simpa [not_or] using hp now)
      · exact hi.stored r' now hr' hlt
  · -- DELETE of an expired row
    have hnow : (s.phase r).nowMs? = some now := by rw [hr]; rfl
    constructor
    · intro r' now' hr'
      simp only [Function.update_apply] at hr'
      split_ifs at hr' with hrr
      · obtain rfl : now = now' := by simpa [Phase.nowMs?] using hr'
        exact hi.time r now hnow
      · exact hi.time r' now' hr'
    · intro r' now' hr' hlt
      simp only [Function.update_apply] at hr'
      split_ifs at hr' with hrr
      · simp at hr'
      · have hk : key r' ≠ key r := fun hk =>
          hi.not_holds_of_expired hnow (fun c hc => hC now c hr hc) hk ⟨now', hr', hlt⟩
        simpa [deleteIdempotency, Function.update_of_ne hk] using hi.stored r' now' hr' hlt
  · -- INSERT into a free key
    have hnow : (s.phase r).nowMs? = some now := by rw [hr]; rfl
    obtain rfl : _ = T := by simpa [insertInProgress, hT] using hins
    constructor
    · intro r' now' hr'
      simp only [Function.update_apply] at hr'
      split_ifs at hr' with hrr
      · obtain rfl : now = now' := by simpa [Phase.nowMs?] using hr'
        exact hi.time r now hnow
      · exact hi.time r' now' hr'
    · intro r' now' hr' hlt
      simp only [Function.update_apply] at hr'
      split_ifs at hr' with hrr
      · subst hrr
        obtain rfl : now = now' := by simpa using hr'
        simp
      · have hk : key r' ≠ key r := fun hk =>
          hi.not_holds_of_expired hnow (by simp [hT]) hk ⟨now', hr', hlt⟩
        simpa [Function.update_of_ne hk] using hi.stored r' now' hr' hlt
  · -- the holder finishes: its row stays
    constructor
    · intro r' now' hr'
      simp only [Function.update_apply] at hr'
      split_ifs at hr' with hrr
      · obtain rfl : now = now' := by simpa [Phase.nowMs?] using hr'
        exact hi.time r now (by rw [hr]; rfl)
      · exact hi.time r' now' hr'
    · intro r' now' hr' hlt
      have hst : s.owner (key r') = some r' ∧ ∃ c, s.table (key r') = some c ∧
          c.createdAt = now' := by
        simp only [Function.update_apply] at hr'
        split_ifs at hr' with hrr
        · subst hrr
          obtain rfl : now = now' := by simpa using hr'
          exact hi.stored r' now (.inl hr) hlt
        · exact hi.stored r' now' hr' hlt
      obtain ⟨ho, c, hc, hcr⟩ := hst
      refine ⟨ho, ?_⟩
      by_cases hk : key r' = key r
      · rw [hk] at hc ⊢
        simp [updateDone, hc, hcr]
      · simp [updateDone, Function.update_of_ne hk, hc, hcr]
  · -- the holder releases its own row
    have hown : s.owner (key r) = some r := (hi.stored r now (.inl hr) (hC now hr)).1
    constructor
    · intro r' now' hr'
      simp only [Function.update_apply] at hr'
      split_ifs at hr' with hrr
      · simp [Phase.nowMs?] at hr'
      · exact hi.time r' now' hr'
    · intro r' now' hr' hlt
      simp only [Function.update_apply] at hr'
      split_ifs at hr' with hrr
      · simp at hr'
      · have hk : key r' ≠ key r := fun hk => hrr <| Option.some.inj <|
          (hk ▸ hi.owner_of_holds ⟨now', hr', hlt⟩).symm.trans hown
        simpa [deleteIdempotency, Function.update_of_ne hk] using hi.stored r' now' hr' hlt

/-! ### Exclusiveness -/

/-- Under the invariant every timely step respects the claims in force. -/
theorem respects_of_inv (hC : Timely ttlMs key s a) (h : step ttlMs key s a = some s') :
    Respects ttlMs key s a s' := by
  constructor
  · rintro r now rfl hst r' - hk ⟨now', hp', hlt'⟩
    obtain ⟨d, h0, -⟩ | ⟨r₁, p, -, -, hns, h0, rfl⟩ | ⟨r₁, _, h0, -⟩ | ⟨r₁, _, h0, -, hT, -⟩ |
      ⟨r₁, _, _, _, h0, -⟩ | ⟨r₁, _, h0, -⟩ := step_cases h
    · cases h0
    · obtain rfl : r = r₁ := by simpa using h0
      exact hns now hst
    · cases h0
    · cases h0
      obtain ⟨-, c, hc, -⟩ := hi.stored r' now' hp' hlt'
      rw [hk, hT] at hc
      cases hc
    · cases h0
    · cases h0
  · intro k c' hc' hdone hnot
    obtain ⟨d, -, rfl⟩ | ⟨r, p, -, -, -, -, rfl⟩ | ⟨r, _, -, -, rfl⟩ |
      ⟨r, _, -, -, hT, T, hins, rfl⟩ | ⟨r, now, hs, b, rfl, hr, rfl⟩ | ⟨r, _, -, -, rfl⟩ :=
      step_cases h
    · exact absurd hdone (hnot c' hc')
    · exact absurd hdone (hnot c' hc')
    · simp only [deleteIdempotency, Function.update_apply] at hc'
      split_ifs at hc'
      exact absurd hdone (hnot c' hc')
    · obtain rfl : _ = T := by simpa [insertInProgress, hT] using hins
      simp only [Function.update_apply] at hc'
      split_ifs at hc'
      · rw [← Option.some.inj hc'] at hdone
        cases hdone
      · exact absurd hdone (hnot c' hc')
    · have hlt := hC now hr
      obtain rfl : key r = k := by
        by_contra hk
        simp only [updateDone, Function.update_of_ne (Ne.symm hk)] at hc'
        exact hnot c' hc' hdone
      exact ⟨r, hs, b, rfl, rfl, (hi.stored r now (.inl hr) hlt).1, now, .inl hr, hlt⟩
    · simp only [deleteIdempotency, Function.update_apply] at hc'
      split_ifs at hc'
      exact absurd hdone (hnot c' hc')
  · rintro r c rfl -
    obtain ⟨d, h0, -⟩ | ⟨_, _, -, -, -, h0, -⟩ | ⟨_, _, h0, -⟩ | ⟨_, _, h0, -⟩ |
      ⟨_, _, _, _, h0, -⟩ | ⟨r₁, now, h0, hr, -⟩ := step_cases h
    · cases h0
    · simp at h0
    · cases h0
    · cases h0
    · cases h0
    · cases h0
      have hlt := hC now hr
      exact ⟨(hi.stored r now (.inl hr) hlt).1, now, .inl hr, hlt⟩

end

/-- The expired claim of request 0 is read by requests 1 and 2 before either deletes it; the
DELETE of 2 removes the claim 1 has just been given. -/
def staleDeleteRun : List (Action Unit (Fin 3)) :=
  [.arrive 0, .select 0, .insert 0, .tick 10, .arrive 1, .select 1, .arrive 2, .select 2,
   .delete 1, .insert 1, .delete 2]

end Lnpl.Drivers.Idempotency
