import Lnpl.Drivers.Breakers

/-!
# The law of a circuit breaker

A breaker's fields say how its circuit stands as long as the steps are orderly; a step that is not
breaks the law at once.
-/

namespace Lnpl.Drivers

open Lib (Throughout throughout_iff)

variable {ρ β ε : Type} {config : BreakerConfig} {b : Breaker} {clock now : ℚ}
  {standing : Standing ρ} {c : ρ}

/-! ### One breaker -/

/-- A breaker of the configuration that tells how the circuit stands, with what its fields keep of
the past: an opening came from enough failures, and a probe from a window that has elapsed. -/
structure Breaker.Stands (config : BreakerConfig) (clock : ℚ) (b : Breaker)
    (standing : Standing ρ) : Prop where
  threshold : b.threshold = config.threshold
  windowMs : b.windowMs = config.windowMs
  tells : b.Tells standing
  counted : b.openedAt ≠ none → config.threshold ≤ b.consecutiveFailures
  elapsed : b.halfOpen = true → ∀ since, b.openedAt = some since →
    config.windowMs ≤ clock - since

theorem stands_new : (Breaker.new config).Stands config clock (.closed 0 : Standing ρ) where
  threshold := rfl
  windowMs := rfl
  tells := ⟨rfl, rfl, rfl⟩
  counted h := absurd rfl h
  elapsed h := absurd h Bool.false_ne_true

/-- A breaker that no probe holds answers as the law does. -/
theorem Breaker.Stands.allow (h : b.Stands config clock standing)
    (hprobe : ∀ probe, standing ≠ .probing probe) (c : ρ) :
    (b.allow now).1 = !standing.rejects config.windowMs now ∧
      (b.allow now).2.Stands config now (standing.asked config.windowMs c now) := by
  cases standing with
  | closed failures =>
    have hopened : b.openedAt = none := h.tells.1
    have hallow : b.allow now = (true, b) := by
      unfold Breaker.allow
      rw [hopened]
    rw [hallow]
    refine ⟨rfl, h.threshold, h.windowMs, h.tells, h.counted, ?_⟩
    intro hhalf
    exact absurd hhalf (by rw [h.tells.2.1]; exact Bool.false_ne_true)
  | opened since =>
    have hopened : b.openedAt = some since := h.tells.1
    by_cases hwindow : now - since < config.windowMs
    · have hallow : b.allow now = (false, b) := by
        unfold Breaker.allow
        rw [hopened, h.windowMs]
        exact if_neg (not_le.mpr hwindow)
      have hasked : (Standing.opened since).asked config.windowMs c now = .opened since :=
        if_pos hwindow
      rw [hallow, hasked]
      refine ⟨?_, h.threshold, h.windowMs, h.tells, h.counted, ?_⟩
      · show false = !decide (now - since < config.windowMs)
        rw [decide_eq_true hwindow]
        rfl
      · intro hhalf
        exact absurd hhalf (by rw [h.tells.2]; exact Bool.false_ne_true)
    · have hallow : b.allow now = (true, { b with halfOpen := true }) := by
        unfold Breaker.allow
        rw [hopened, h.windowMs]
        exact if_pos (not_lt.mp hwindow)
      have hasked : (Standing.opened since).asked config.windowMs c now = .probing c :=
        if_neg hwindow
      rw [hallow, hasked]
      refine ⟨?_, h.threshold, h.windowMs, ⟨?_, rfl⟩, h.counted, ?_⟩
      · show true = !decide (now - since < config.windowMs)
        rw [decide_eq_false hwindow]
        rfl
      · show b.openedAt.isSome
        rw [hopened]
        rfl
      · intro _ since' hsince
        have heq : since = since' := Option.some.inj (hopened.symm.trans hsince)
        rw [← heq]
        exact not_lt.mp hwindow
  | probing probe => exact absurd rfl (hprobe probe)

/-- While a probe is unresolved, the breaker admits whatever asks. -/
theorem Breaker.Stands.allow_probing {probe : ρ} (h : b.Stands config clock (.probing probe))
    (hclock : clock ≤ now) : (b.allow now).1 = true := by
  obtain ⟨since, hsince⟩ := Option.isSome_iff_exists.mp h.tells.1
  have helapsed : config.windowMs ≤ now - since :=
    (h.elapsed h.tells.2 since hsince).trans (sub_le_sub_right hclock since)
  unfold Breaker.allow
  rw [hsince, h.windowMs]
  show (if now - since ≥ config.windowMs then (true, _) else (false, b)).1 = true
  rw [if_pos helapsed]

theorem stands_recordSuccess (h : b.Stands config clock standing) :
    b.recordSuccess.Stands config now (.closed 0 : Standing ρ) where
  threshold := h.threshold
  windowMs := h.windowMs
  tells := ⟨rfl, rfl, rfl⟩
  counted h := absurd rfl h
  elapsed h := absurd h Bool.false_ne_true

theorem recordFailure_halfOpen (hhalf : b.halfOpen = true) (now : ℚ) :
    b.recordFailure now = { b with
      openedAt := some now
      halfOpen := false } :=
  if_pos hhalf

/-- Without a probe, a failure that reaches the threshold opens the breaker. -/
theorem recordFailure_cases (hhalf : b.halfOpen = false) (now : ℚ) :
    (b.threshold ≤ b.consecutiveFailures + 1 ∧ b.recordFailure now = { b with
      consecutiveFailures := b.consecutiveFailures + 1
      openedAt := some now }) ∨
    (b.consecutiveFailures + 1 < b.threshold ∧ b.recordFailure now = { b with
      consecutiveFailures := b.consecutiveFailures + 1 }) := by
  unfold Breaker.recordFailure
  rw [if_neg (by rw [hhalf]; exact Bool.false_ne_true)]
  dsimp only
  by_cases hcount : b.consecutiveFailures + 1 ≥ b.threshold
  · rw [if_pos hcount]
    exact .inl ⟨hcount, rfl⟩
  · rw [if_neg hcount]
    exact .inr ⟨not_le.mp hcount, rfl⟩

/-- A failure from before the opening opens the breaker once more. -/
theorem Breaker.Stands.recordFailure_opened {since : ℚ}
    (h : b.Stands config clock (.opened since : Standing ρ)) (now : ℚ) :
    (b.recordFailure now).Stands config now (.opened now : Standing ρ) := by
  obtain ⟨hopened, hhalf⟩ := h.tells
  have hcounted : config.threshold ≤ b.consecutiveFailures :=
    h.counted (by rw [hopened]; exact Option.some_ne_none since)
  obtain ⟨hcount, hb⟩ | ⟨hcount, -⟩ := recordFailure_cases hhalf now
  · rw [hb]
    refine ⟨h.threshold, h.windowMs, ⟨rfl, hhalf⟩, ?_, ?_⟩
    · intro _
      exact Nat.le_succ_of_le hcounted
    · intro hhalf'
      exact absurd hhalf' (by rw [hhalf]; exact Bool.false_ne_true)
  · rw [h.threshold] at hcount
    omega

variable [DecidableEq ρ]

/-- A closed breaker counts every outcome. -/
theorem Breaker.Stands.record_closed {failures : Nat}
    (h : b.Stands config clock (.closed failures : Standing ρ)) (success : Bool) (c : ρ) (now : ℚ) :
    (b.record (some success) now).Stands config now
      ((Standing.closed failures).told config.threshold c now success) := by
  cases success with
  | true => exact stands_recordSuccess h
  | false =>
    show (b.recordFailure now).Stands config now (if failures + 1 ≥ config.threshold
      then .opened now else .closed (failures + 1) : Standing ρ)
    obtain ⟨hopened, hhalf, hfailures⟩ := h.tells
    obtain ⟨hcount, hb⟩ | ⟨hcount, hb⟩ := recordFailure_cases hhalf now
    · rw [h.threshold, hfailures] at hcount
      rw [hb, if_pos hcount]
      refine ⟨h.threshold, h.windowMs, ⟨rfl, hhalf⟩, ?_, ?_⟩
      · intro _
        show config.threshold ≤ b.consecutiveFailures + 1
        rw [hfailures]
        exact hcount
      · intro hhalf'
        exact absurd hhalf' (by rw [hhalf]; exact Bool.false_ne_true)
    · rw [h.threshold, hfailures] at hcount
      rw [hb, if_neg (not_le.mpr hcount)]
      refine ⟨h.threshold, h.windowMs, ⟨hopened, hhalf, ?_⟩, ?_, ?_⟩
      · show b.consecutiveFailures + 1 = failures + 1
        rw [hfailures]
      · intro hsome
        exact absurd hopened hsome
      · intro hhalf'
        exact absurd hhalf' (by rw [hhalf]; exact Bool.false_ne_true)

/-- A probe resolves what it stands for. -/
theorem Breaker.Stands.record_probing (h : b.Stands config clock (.probing c)) (success : Bool)
    (now : ℚ) :
    (b.record (some success) now).Stands config now
      ((Standing.probing c).told config.threshold c now success) := by
  have htold : (Standing.probing c).told config.threshold c now success =
      if success then .closed 0 else .opened now := if_pos rfl
  rw [htold]
  cases success with
  | true => exact stands_recordSuccess h
  | false =>
    show (b.recordFailure now).Stands config now (.opened now : Standing ρ)
    obtain ⟨hopened, hhalf⟩ := h.tells
    rw [recordFailure_halfOpen hhalf]
    refine ⟨h.threshold, h.windowMs, ⟨rfl, rfl⟩, ?_, ?_⟩
    · intro _
      exact h.counted (Option.isSome_iff_ne_none.mp hopened)
    · intro hhalf'
      exact absurd hhalf' Bool.false_ne_true

/-- **Outcomes that count.**  A breaker goes on saying how the circuit stands iff the outcome is of
a closed circuit, of the probe, or a failure at the moment of the opening. -/
theorem Breaker.Stands.record_iff (h : b.Stands config clock standing) (success : Bool) (c : ρ)
    (now : ℚ) :
    (b.record (some success) now).Tells (standing.told config.threshold c now success) ↔
      standing.Counts c now success := by
  cases standing with
  | closed failures => exact iff_of_true (h.record_closed success c now).tells trivial
  | opened since =>
    show (b.record (some success) now).Tells (.opened since) ↔ now = since ∧ success = false
    cases success with
    | true =>
      refine iff_of_false ?_ fun hand => absurd hand.2 (by decide)
      intro htells
      cases htells.1
    | false =>
      obtain ⟨hopened, hhalf⟩ := (h.recordFailure_opened now).tells
      constructor
      · intro htells
        exact ⟨Option.some.inj (hopened.symm.trans htells.1), rfl⟩
      · rintro ⟨rfl, -⟩
        exact ⟨hopened, hhalf⟩
  | probing probe =>
    by_cases hc : probe = c
    · rw [hc] at h ⊢
      exact iff_of_true (h.record_probing success now).tells rfl
    · have htold : (Standing.probing probe).told config.threshold c now success =
          .probing probe := if_neg hc
      rw [htold]
      refine iff_of_false ?_ hc
      intro htells
      cases success with
      | true => exact absurd htells.2 Bool.false_ne_true
      | false =>
        have hhalf : (b.recordFailure now).halfOpen = true := htells.2
        rw [recordFailure_halfOpen h.tells.2] at hhalf
        exact absurd hhalf Bool.false_ne_true

variable {success : Bool} {p : Phase} {attempts : Nat → Attempt β ε}

/-- An outcome that counts leaves the breaker standing as the law does. -/
theorem Breaker.Stands.record_of_counts (h : b.Stands config clock standing)
    (hcounts : standing.Counts c now success) :
    (b.record (some success) now).Stands config now
      (standing.told config.threshold c now success) := by
  cases standing with
  | closed failures => exact h.record_closed success c now
  | opened since =>
    obtain ⟨rfl, rfl⟩ := hcounts
    exact h.recordFailure_opened now
  | probing probe =>
    have hprobe : probe = c := hcounts
    rw [hprobe] at h ⊢
    exact h.record_probing success now

/-! ### The circuit -/

/-- The breaker of the target stands as the law does, and every call that holds or was admitted by
a breaker has that one. -/
structure Circuit.Sound (config : BreakerConfig) (s : Circuit ρ) : Prop where
  entry : match s.entry with
    | some i => ∃ b, s.made[i]? = some b ∧ b.Stands config s.clock s.standing
    | none => s.standing = .closed 0
  shared : ∀ c i, s.phase c = .holding i ∨ s.phase c = .admitted i → s.entry = some i

variable {parseInt : String → Option Int} {uniform : Nat → ℚ → ℚ} {cap : Capability}
  {s : Circuit ρ} {i : Nat}

omit [DecidableEq ρ] in
theorem Circuit.Sound.agrees (h : s.Sound config) : s.Agrees := by
  have hentry := h.entry
  unfold Circuit.Agrees
  cases hs : s.entry with
  | none =>
    rw [hs] at hentry
    exact hentry
  | some i =>
    rw [hs] at hentry
    obtain ⟨b, hb, hstands⟩ := hentry
    exact ⟨b, hb, hstands.tells⟩

omit [DecidableEq ρ] in
/-- The breaker that a call holds. -/
theorem Circuit.Sound.held (h : s.Sound config)
    (hphase : s.phase c = .holding i ∨ s.phase c = .admitted i) :
    s.entry = some i ∧ ∃ b, s.made[i]? = some b ∧ b.Stands config s.clock s.standing := by
  have hentry := h.entry
  have hshared := h.shared c i hphase
  rw [hshared] at hentry
  exact ⟨hshared, hentry⟩

omit [DecidableEq ρ] in
theorem sound_start (clock : ℚ) : ({ clock := clock } : Circuit ρ).Sound config where
  entry := rfl
  shared := by
    rintro c i (h | h)
    · cases h
    · cases h

@[simp] theorem setPhase_self : (s.setPhase c p).phase c = p := by
  simp [Circuit.setPhase]

theorem setPhase_of_ne {c' : ρ} (h : c' ≠ c) : (s.setPhase c p).phase c' = s.phase c' := by
  simp [Circuit.setPhase, Function.update_of_ne h]

theorem getElem?_set_of_some {l : List Breaker} (h : l[i]? = some b) (b' : Breaker) :
    (l.set i b')[i]? = some b' := by
  obtain ⟨hlt, -⟩ := List.getElem?_eq_some_iff.mp h
  exact List.getElem?_set_self hlt

theorem Circuit.step_allow (hphase : s.phase c = .holding i) (hb : s.made[i]? = some b)
    (hnow : s.clock ≤ now) :
    s.step parseInt uniform cap config (.allow c now : Move ρ β ε) =
      { s.setPhase c (if (b.allow now).1 then .admitted i else .rejected) with
        made := s.made.set i (b.allow now).2
        clock := now
        standing := s.standing.asked config.windowMs c now } := by
  unfold Circuit.step
  dsimp only
  rw [hphase]
  dsimp only
  rw [hb]
  exact if_pos hnow

theorem Circuit.step_finish {outcome : Option Bool} (hphase : s.phase c = .admitted i)
    (hb : s.made[i]? = some b) (hnow : s.clock ≤ now)
    (houtcome : (endingOf parseInt uniform cap attempts).recorded = outcome) :
    s.step parseInt uniform cap config (.finish c attempts now) =
      { s.setPhase c (.ended outcome.toList.length) with
        made := s.made.set i (b.record outcome now)
        clock := now
        standing := s.standing.told config.threshold c now (outcome = some true) } := by
  unfold Circuit.step
  dsimp only
  rw [hphase]
  dsimp only
  rw [hb, houtcome]
  exact if_pos hnow

/-- What is not enabled does not happen. -/
theorem step_of_not_enabled {m : Move ρ β ε} (h : ¬m.enabled s) :
    s.step parseInt uniform cap config m = s := by
  cases m with
  | lookUp c => exact if_neg h
  | make c => exact if_neg h
  | allow c now =>
    unfold Circuit.step
    dsimp only
    cases hphase : s.phase c with
    | holding i =>
      dsimp only
      cases s.made[i]? with
      | none => rfl
      | some b => exact if_neg fun hnow => h ⟨⟨i, hphase⟩, hnow⟩
    | idle | missed | rejected | admitted i | ended n => rfl
  | finish c attempts now =>
    unfold Circuit.step
    dsimp only
    cases hphase : s.phase c with
    | admitted i =>
      dsimp only
      cases s.made[i]? with
      | none => rfl
      | some b => exact if_neg fun hnow => h ⟨⟨i, hphase⟩, hnow⟩
    | idle | missed | rejected | holding i | ended n => rfl

section

variable (h : s.Sound config)
include h

/-- The calls that have a breaker after one call has moved on. -/
theorem shared_setPhase (hp : ∀ j, p = .holding j ∨ p = .admitted j →
    s.entry = some j) (c' : ρ) (j : Nat) (hphase : (s.setPhase c p).phase c' = .holding j ∨
      (s.setPhase c p).phase c' = .admitted j) : s.entry = some j := by
  by_cases hc : c' = c
  · rw [hc] at hphase
    simp only [setPhase_self] at hphase
    exact hp j hphase
  · simp only [setPhase_of_ne hc] at hphase
    exact h.shared c' j hphase

/-- A step that only touches the breaker of the target keeps the circuit sound, if the breaker
stands as the law does afterwards. -/
theorem sound_told (hentry : s.entry = some i) (hb : s.made[i]? = some b) {b' : Breaker}
    {standing' : Standing ρ} (hp : ∀ j, p = .holding j ∨ p = .admitted j → j = i)
    (hstands : b'.Stands config now standing') :
    ({ s.setPhase c p with
        made := s.made.set i b'
        clock := now
        standing := standing' } : Circuit ρ).Sound config := by
  constructor
  · show match s.entry with
      | some i' => ∃ b, (s.made.set i b')[i']? = some b ∧ b.Stands config now standing'
      | none => standing' = .closed 0
    rw [hentry]
    exact ⟨b', getElem?_set_of_some hb b', hstands⟩
  · intro c' j hphase
    apply shared_setPhase h _ c' j hphase
    intro k hk
    rw [hp k hk]
    exact hentry

/-! ### Steps -/

theorem sound_lookUp (c : ρ) :
    (s.step parseInt uniform cap config (.lookUp c : Move ρ β ε)).Sound config := by
  unfold Circuit.step
  dsimp only
  by_cases hidle : s.phase c = .idle
  · rw [if_pos hidle]
    cases hentry : s.entry with
    | none =>
      refine ⟨h.entry, ?_⟩
      apply shared_setPhase h
      rintro j (hj | hj)
      · cases hj
      · cases hj
    | some i =>
      refine ⟨h.entry, ?_⟩
      apply shared_setPhase h
      rintro j (hj | hj)
      · rw [hentry, Phase.holding.inj hj]
      · cases hj
  · rw [if_neg hidle]
    exact h

theorem sound_make (hentry : s.entry = none) (c : ρ) :
    (s.step parseInt uniform cap config (.make c : Move ρ β ε)).Sound config := by
  have hstanding : s.standing = .closed 0 := by
    have h' := h.entry
    rw [hentry] at h'
    exact h'
  unfold Circuit.step
  dsimp only
  by_cases hmissed : s.phase c = .missed
  · rw [if_pos hmissed]
    constructor
    · show ∃ b, (s.made ++ [Breaker.new config])[s.made.length]? = some b ∧
        b.Stands config s.clock s.standing
      refine ⟨Breaker.new config, by simp, ?_⟩
      rw [hstanding]
      exact stands_new
    · intro c' j hphase
      show some s.made.length = some j
      by_cases hc : c' = c
      · rw [hc] at hphase
        simp only [setPhase_self] at hphase
        rcases hphase with hj | hj
        · rw [Phase.holding.inj hj]
        · cases hj
      · simp only [setPhase_of_ne hc] at hphase
        have hnone := h.shared c' j hphase
        rw [hentry] at hnone
        cases hnone
  · rw [if_neg hmissed]
    exact h

/-- Nothing is asked while a probe is unresolved: the breaker answers as the law does. -/
theorem sound_allow (hphase : s.phase c = .holding i) (hnow : s.clock ≤ now)
    (hprobe : ∀ probe, s.standing ≠ .probing probe) :
    (s.step parseInt uniform cap config (.allow c now : Move ρ β ε)).Sound config ∧
      ((s.step parseInt uniform cap config (.allow c now : Move ρ β ε)).phase c = .rejected ↔
        s.standing.rejects config.windowMs now = true) := by
  obtain ⟨hentry, b, hb, hstands⟩ := h.held (.inl hphase)
  obtain ⟨hanswer, hstands'⟩ := (hstands.allow hprobe c : _ ∧ (b.allow now).2.Stands config now _)
  rw [Circuit.step_allow hphase hb hnow]
  constructor
  · apply sound_told h hentry hb _ hstands'
    rintro j hj
    cases hallowed : (b.allow now).1 with
    | true =>
      rw [hallowed, if_pos rfl] at hj
      rcases hj with hj | hj
      · cases hj
      · exact (Phase.admitted.inj hj).symm
    | false =>
      rw [hallowed, if_neg Bool.false_ne_true] at hj
      rcases hj with hj | hj
      · cases hj
      · cases hj
  · show (s.setPhase c _).phase c = .rejected ↔ _
    rw [setPhase_self, hanswer]
    cases s.standing.rejects config.windowMs now with
    | true => exact iff_of_true rfl rfl
    | false => exact iff_of_false (fun hadmitted => by cases hadmitted) Bool.false_ne_true

/-- A second call is admitted while a probe is unresolved. -/
theorem admits_probing {probe : ρ} (hphase : s.phase c = .holding i) (hnow : s.clock ≤ now)
    (hprobe : s.standing = .probing probe) :
    (s.step parseInt uniform cap config (.allow c now : Move ρ β ε)).phase c = .admitted i := by
  obtain ⟨-, b, hb, hstands⟩ := h.held (.inl hphase)
  rw [hprobe] at hstands
  rw [Circuit.step_allow hphase hb hnow]
  show (s.setPhase c _).phase c = .admitted i
  rw [setPhase_self, hstands.allow_probing hnow]
  exact if_pos rfl

section

variable (hphase : s.phase c = .admitted i)
include hphase

/-- An outcome is recorded once, and the breaker goes on telling how the circuit stands iff the
outcome counts. -/
theorem finish_iff (hnow : s.clock ≤ now)
    (houtcome : (endingOf parseInt uniform cap attempts).recorded = some success) :
    (s.step parseInt uniform cap config (.finish c attempts now)).phase c = .ended 1 ∧
      ((s.step parseInt uniform cap config (.finish c attempts now)).Agrees ↔
        s.standing.Counts c now success) := by
  obtain ⟨hentry, b, hb, hstands⟩ := h.held (.inr hphase)
  rw [Circuit.step_finish hphase hb hnow houtcome]
  constructor
  · exact setPhase_self
  · rw [← hstands.record_iff success c now]
    unfold Circuit.Agrees
    show (match s.entry with
      | some i => ∃ b', (s.made.set _ _)[i]? = some b' ∧ b'.Tells _
      | none => _) ↔ _
    rw [hentry]
    dsimp only
    rw [getElem?_set_of_some hb, show decide (some success = some true) = success by
      cases success <;> rfl]
    constructor
    · rintro ⟨b', hb', htells⟩
      rw [Option.some.inj hb']
      exact htells
    · intro htells
      exact ⟨_, rfl, htells⟩

/-- An outcome that counts leaves the circuit sound. -/
theorem sound_finish (hnow : s.clock ≤ now)
    (houtcome : (endingOf parseInt uniform cap attempts).recorded = some success)
    (hcounts : s.standing.Counts c now success) :
    (s.step parseInt uniform cap config (.finish c attempts now)).Sound config := by
  obtain ⟨hentry, b, hb, hstands⟩ := h.held (.inr hphase)
  rw [Circuit.step_finish hphase hb hnow houtcome]
  apply sound_told h hentry hb
  · rintro j (hj | hj)
    · cases hj
    · cases hj
  · rw [show decide (some success = some true) = success by cases success <;> rfl]
    exact hstands.record_of_counts hcounts

/-- An ending that is neither a reply nor a `DriverError` is recorded by nobody. -/
theorem finish_escaped (hnow : s.clock ≤ now)
    (houtcome : (endingOf parseInt uniform cap attempts).recorded = none) :
    (s.step parseInt uniform cap config (.finish c attempts now)).phase c = .ended 0 := by
  obtain ⟨-, b, hb, -⟩ := h.held (.inr hphase)
  rw [Circuit.step_finish hphase hb hnow houtcome]
  exact setPhase_self

end

end

/-! ### Runs -/

/-- An orderly step keeps the circuit sound. -/
theorem Circuit.Sound.step {m : Move ρ β ε} (h : s.Sound config)
    (horderly : s.Orderly parseInt uniform cap m) :
    (s.step parseInt uniform cap config m).Sound config := by
  by_cases henabled : m.enabled s
  · cases m with
    | lookUp c => exact sound_lookUp h c
    | make c => exact sound_make h (horderly henabled) c
    | allow c now =>
      obtain ⟨⟨i, hphase⟩, hnow⟩ := henabled
      exact (sound_allow h hphase hnow (horderly ⟨⟨i, hphase⟩, hnow⟩)).1
    | finish c attempts now =>
      obtain ⟨success, houtcome, hcounts⟩ := horderly henabled
      obtain ⟨⟨i, hphase⟩, hnow⟩ := henabled
      exact sound_finish h hphase hnow houtcome hcounts
  · rw [step_of_not_enabled henabled]
    exact h

/-- In a sound circuit a step keeps the law iff it is orderly. -/
theorem Circuit.Sound.lawful_iff (h : s.Sound config) (m : Move ρ β ε) :
    s.Lawful parseInt uniform cap config m ↔ s.Orderly parseInt uniform cap m := by
  constructor
  · intro hlawful henabled
    obtain ⟨hagrees, howed⟩ := hlawful henabled
    cases m with
    | lookUp c => trivial
    | make c => exact howed
    | allow c now =>
      obtain ⟨⟨i, hphase⟩, hnow⟩ := henabled
      intro probe hprobe
      have hadmitted : (s.step parseInt uniform cap config (.allow c now : Move ρ β ε)).phase c =
          .admitted i := admits_probing h hphase hnow hprobe
      have hrejects : s.standing.rejects config.windowMs now = true := by
        rw [hprobe]
        rfl
      rw [howed.mpr hrejects] at hadmitted
      cases hadmitted
    | finish c attempts now =>
      obtain ⟨⟨i, hphase⟩, hnow⟩ := henabled
      cases houtcome : (endingOf parseInt uniform cap attempts).recorded with
      | none =>
        have hended := finish_escaped h hphase hnow houtcome
        rw [howed] at hended
        cases hended
      | some success =>
        exact ⟨success, houtcome, (finish_iff h hphase hnow houtcome).2.mp hagrees⟩
  · intro horderly henabled
    refine ⟨(h.step horderly).agrees, ?_⟩
    cases m with
    | lookUp c => trivial
    | make c => exact horderly henabled
    | allow c now =>
      obtain ⟨⟨i, hphase⟩, hnow⟩ := henabled
      exact (sound_allow h hphase hnow (horderly ⟨⟨i, hphase⟩, hnow⟩)).2
    | finish c attempts now =>
      obtain ⟨success, houtcome, -⟩ := horderly henabled
      obtain ⟨⟨i, hphase⟩, hnow⟩ := henabled
      exact (finish_iff h hphase hnow houtcome).1

/-- A call without an answer. -/
def refused : Nat → Attempt Unit Unit := fun _ => .driverError "connection refused"

/-- A breaker after one failure with a window of a second: the first call fails at once, and two
calls ask after the window. -/
def twoProbes : List (Move Nat Unit Unit) :=
  [.lookUp 0, .make 0, .allow 0 0, .finish 0 refused 0, .lookUp 1, .allow 1 1000, .lookUp 2,
    .allow 2 1000]

end Lnpl.Drivers
