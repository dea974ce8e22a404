import Lnpl.Backend.Retry

/-!
# Attempts by the two modes

Both loops stop at the first attempt that is the last or behind which the deadline leaves no room,
each by its own clock.  The clocks differ by what the effects that were done have cost.
-/

namespace Lnpl.Backend

open Lib (firstStop StaysLate)

/-! ### Clocks -/

theorem backoffMs_le (a : Nat) : backoffMs a ≤ backoffMs (a + 1) := by
  have hpow : 2 ^ (a - 1) ≤ 2 ^ (a + 1 - 1) := Nat.pow_le_pow_right (by decide) (by omega)
  unfold backoffMs
  omega

theorem clockAfter_le (start : Nat) (cost : Nat → Nat) (a : Nat) :
    clockAfter start cost a ≤ clockAfter start cost (a + 1) := by
  cases a with
  | zero => exact Nat.le_add_right start (cost 1)
  | succ a =>
    show clockAfter start cost (a + 1) ≤
      clockAfter start cost (a + 1) + backoffMs (a + 1) + cost (a + 2)
    omega

variable {a clock t : Nat} {deadline : Option Nat}

theorem clockAfter_succ (h : 1 ≤ a) (start : Nat) (cost : Nat → Nat) :
    clockAfter start cost (a + 1) = clockAfter start cost a + backoffMs a + cost (a + 1) := by
  cases a with
  | zero => exact absurd h (by decide)
  | succ a => rfl

/-- The attempts behind which the deadline leaves no room. -/
def lateAt (timeoutMs : Option Nat) (start : Nat) (cost : Nat → Nat) (a : Nat) : Bool :=
  pastDeadline timeoutMs (clockAfter start cost a) a

theorem staysLate_lateAt (timeoutMs : Option Nat) (start : Nat) (cost : Nat → Nat) :
    StaysLate (lateAt timeoutMs start cost) := by
  intro a
  unfold lateAt pastDeadline
  cases timeoutMs with
  | none => exact fun h => absurd h Bool.false_ne_true
  | some t =>
    have hclock := clockAfter_le start cost a
    have hbackoff := backoffMs_le a
    simp only [Option.any_some, decide_eq_true_eq]
    omega

/-! ### The number of attempts -/

/-- The attempts that the budget and the ceiling allow. -/
def attemptLimit (policy : Policy) : Nat := min (policy.retry.toNat + 1) maxStepAttempts

/-- The reason that a loop of attempts stops for. -/
def reasonOf (late : Bool) : Reason := if late then .deadline else .budget

theorem reasonOf_inj {late late' : Bool} (h : reasonOf late = reasonOf late') : late = late' := by
  cases late with
  | true =>
    cases late' with
    | true => rfl
    | false => cases h
  | false =>
    cases late' with
    | true => cases h
    | false => rfl

/-- Whether an attempt is the last that the budget and the ceiling allow. -/
theorem last_iff {policy : Policy} (h : a ≤ attemptLimit policy) (hretry : 0 < policy.retry) :
    (a ≥ maxStepAttempts ∨ (a : Int) > policy.retry) ↔ attemptLimit policy - a = 0 := by
  unfold attemptLimit at *
  omega

/-- **Mode B's loop** stops at the first attempt that is the last or late by its clock. -/
theorem failureLoop_eq {policy : Policy} (hretry : 0 < policy.retry) (perAttempt start : Nat)
    (left : Nat) :
    ∀ (a clock : Nat), 1 ≤ a → a ≤ attemptLimit policy → maxStepAttempts ≤ left + a →
      clock + perAttempt = clockAfter start (fun _ => perAttempt) a →
      failureLoop policy perAttempt left a clock =
        ((firstStop (lateAt policy.timeoutMs start fun _ => perAttempt)
            (attemptLimit policy - a) a).1,
          reasonOf (firstStop (lateAt policy.timeoutMs start fun _ => perAttempt)
            (attemptLimit policy - a) a).2) := by
  induction left with
  | zero =>
    intro a clock _ hlimit hleft hclock
    have hlast : attemptLimit policy - a = 0 := (last_iff hlimit hretry).mp (.inl (by omega))
    unfold failureLoop
    dsimp only
    rw [if_pos (by omega), hlast]
    rfl
  | succ left ih =>
    intro a clock ha hlimit hleft hclock
    unfold failureLoop
    dsimp only
    rw [hclock]
    by_cases hlast : attemptLimit policy - a = 0
    · rw [hlast]
      rcases (last_iff hlimit hretry).mpr hlast with hceiling | hbudget
      · rw [if_pos hceiling]
        rfl
      · rw [if_pos hbudget, ite_self]
        rfl
    · have hmore : attemptLimit policy - a = (attemptLimit policy - (a + 1)) + 1 := by omega
      have hnot := mt (last_iff hlimit hretry).mp hlast
      rw [if_neg fun hceiling => hnot (.inl hceiling), if_neg fun hbudget => hnot (.inr hbudget),
        hmore]
      cases hlate : lateAt policy.timeoutMs start (fun _ => perAttempt) a with
      | true =>
        rw [Lib.firstStop_of_late hlate]
        exact if_pos hlate
      | false =>
        have hroom : ¬lateAt policy.timeoutMs start (fun _ => perAttempt) a = true := by
          rw [hlate]
          exact Bool.false_ne_true
        rw [Lib.firstStop_of_not_late hlate]
        exact (if_neg hroom).trans
          (ih (a + 1) _ (by omega) (by omega) (by omega) (clockAfter_succ ha _ _).symm)

/-! ### Mode A's failing step -/

variable {policy : Policy} {f : FailingStep} {start : Nat}

theorem runEffects_replicate (reached costMs : Nat) :
    ∀ clock, runEffects (List.replicate reached .done ++ [.failed costMs]) clock =
      (false, clock + reached + costMs) := by
  induction reached with
  | zero => exact fun clock => rfl
  | succ reached ih =>
    intro clock
    rw [List.replicate_succ, List.cons_append]
    show runEffects (List.replicate reached .done ++ [.failed costMs]) (clock + 1) = _
    rw [ih (clock + 1)]
    have hclock : clock + 1 + reached + costMs = clock + (reached + 1) + costMs := by omega
    rw [hclock]

theorem runEffects_done (effects : List Effect) :
    ∀ clock, runEffects (effects.map fun _ => .done) clock =
      (true, clock + (effects.length + stepCostMs)) := by
  induction effects with
  | nil => exact fun clock => by rw [List.length_nil, Nat.zero_add]; rfl
  | cons e effects ih =>
    intro clock
    show runEffects (effects.map fun _ => .done) (clock + 1) = _
    rw [ih (clock + 1), List.length_cons]
    have hclock : clock + 1 + (effects.length + stepCostMs) =
        clock + (effects.length + 1 + stepCostMs) := by omega
    rw [hclock]

/-- An attempt before the deadline fails. -/
theorem runStep_failing (h : ∀ t ∈ deadline, clock < t) (a : Nat) :
    runStep deadline (f.toStep.ends a) clock = (.failed, clock + f.spent a) := by
  have hbefore : ¬(deadline.any fun t => clock ≥ t) = true := by
    rw [Option.any_eq_true]
    rintro ⟨t, ht, hge⟩
    have hlt := h t ht
    have hle := of_decide_eq_true hge
    omega
  unfold runStep
  have hends : f.toStep.ends a = List.replicate (f.reached a) .done ++ [.failed (f.costMs a)] := rfl
  rw [if_neg hbefore, hends, runEffects_replicate, FailingStep.spent, Nat.add_assoc]

/-- An attempt at the deadline is not run. -/
theorem runStep_exhausted (h : t ≤ clock) (ends : List EffectEnd) :
    runStep (some t) ends clock = (.exhausted, clock) :=
  if_pos (decide_eq_true h)

/-- There is room behind an attempt only before the deadline. -/
theorem lt_of_not_pastDeadline {timeoutMs : Option Nat}
    (h : pastDeadline timeoutMs clock a = false) :
    ∀ t ∈ timeoutMs, clock + backoffMs a < t := by
  rintro t rfl
  exact Nat.lt_of_not_le (of_decide_eq_false h)

/-- The effects that mode A repeats are those that mode B repeats, without the rejections. -/
theorem repeated_iff (effects : List Effect) :
    (effects.all fun e => e.idempotent && e.kind ≠ .networkCall && e.kind ≠ .eventEmit &&
      e.kind ≠ .rejection) = true ↔
      repeatable effects = true ∧ ∀ e ∈ effects, e.kind ≠ .rejection := by
  unfold repeatable
  rw [List.all_eq_true, List.all_eq_true]
  constructor
  · intro h
    constructor
    · intro e he
      exact (Bool.and_eq_true_iff.mp (h e he)).1
    · intro e he
      exact of_decide_eq_true (Bool.and_eq_true_iff.mp (h e he)).2
  · rintro ⟨h, hrejection⟩ e he
    exact Bool.and_eq_true_iff.mpr ⟨h e he, decide_eq_true (hrejection e he)⟩

/-- **Mode A's loop** stops at the first attempt that is the last or late by its clock. -/
theorem stepLoop_eq (hretry : 0 < policy.retry) (hrepeatable : repeatable f.effects = true)
    (hrejection : ∀ e ∈ f.effects, e.kind ≠ .rejection) (start left : Nat) :
    ∀ (a clock : Nat), 1 ≤ a → a ≤ attemptLimit policy → maxStepAttempts ≤ left + a →
      (∀ t ∈ policy.timeoutMs, clock < t) →
      clock + f.spent a = clockAfter start f.spent a →
      (stepLoop policy policy.timeoutMs f.toStep left a clock).1 =
        ⟨(firstStop (lateAt policy.timeoutMs start f.spent) (attemptLimit policy - a) a).1,
          some (reasonOf (firstStop (lateAt policy.timeoutMs start f.spent)
            (attemptLimit policy - a) a).2)⟩ := by
  have hrepeated := (repeated_iff f.effects).mpr ⟨hrepeatable, hrejection⟩
  induction left with
  | zero =>
    intro a clock _ hlimit hleft hbefore hclock
    have hlast : attemptLimit policy - a = 0 := (last_iff hlimit hretry).mp (.inl (by omega))
    have hrefusal : refusal policy policy.timeoutMs f.toStep.effects a (clock + f.spent a) =
        some .budget := if_pos (by omega)
    unfold stepLoop
    rw [runStep_failing hbefore]
    dsimp only
    rw [hrefusal, hlast]
    rfl
  | succ left ih =>
    intro a clock ha hlimit hleft hbefore hclock
    unfold stepLoop
    rw [runStep_failing hbefore]
    dsimp only
    by_cases hlast : attemptLimit policy - a = 0
    · have hrefusal : refusal policy policy.timeoutMs f.toStep.effects a (clock + f.spent a) =
          some .budget := by
        unfold refusal
        rcases (last_iff hlimit hretry).mpr hlast with hceiling | hbudget
        · exact if_pos hceiling
        · rw [if_pos hbudget, ite_self]
      rw [hrefusal, hlast]
      rfl
    · have hmore : attemptLimit policy - a = (attemptLimit policy - (a + 1)) + 1 := by omega
      have hnot := mt (last_iff hlimit hretry).mp hlast
      have hrefusal : refusal policy policy.timeoutMs f.toStep.effects a (clock + f.spent a) =
          if lateAt policy.timeoutMs start f.spent a then some .deadline else none := by
        unfold refusal
        rw [if_neg fun hceiling => hnot (.inl hceiling), if_neg fun hbudget => hnot (.inr hbudget),
          hclock]
        show (if lateAt policy.timeoutMs start f.spent a = true then _
          else if (f.effects.all _) = true then _ else _) = _
        rw [if_pos hrepeated]
      rw [hrefusal, hmore]
      cases hlate : lateAt policy.timeoutMs start f.spent a with
      | true =>
        rw [Lib.firstStop_of_late hlate, if_pos rfl]
        rfl
      | false =>
        rw [Lib.firstStop_of_not_late hlate, if_neg Bool.false_ne_true]
        dsimp only
        rw [hclock]
        exact ih (a + 1) _ (by omega) (by omega) (by omega) (lt_of_not_pastDeadline hlate)
          (clockAfter_succ ha _ _).symm

/-! ### The steps before it -/

theorem stepLoop_doneStep (h : ∀ t ∈ deadline, clock < t) (effects : List Effect) (left : Nat) :
    stepLoop policy deadline (doneStep effects) left 1 clock =
      (⟨1, none⟩, clock + (effects.length + stepCostMs)) := by
  have hbefore : ¬(deadline.any fun t => clock ≥ t) = true := by
    rw [Option.any_eq_true]
    rintro ⟨t, ht, hge⟩
    have hlt := h t ht
    have hle := of_decide_eq_true hge
    omega
  have hrun : runStep deadline ((doneStep effects).ends 1) clock =
      (.done, clock + (effects.length + stepCostMs)) := by
    unfold runStep
    have hends : (doneStep effects).ends 1 = effects.map fun _ => .done := rfl
    rw [if_neg hbefore, hends, runEffects_done]
  unfold stepLoop
  rw [hrun]

/-- A step that begins at the deadline or behind it is attempted once. -/
theorem stepLoop_exhausted (h : t ≤ clock) (step : Step) (left : Nat) :
    stepLoop policy (some t) step left 1 clock = (⟨1, some .deadline⟩, clock) := by
  have hrefusal : ∃ reason, refusal policy (some t) step.effects 1 clock = some reason := by
    have hpast : pastDeadline (some t) clock 1 = true :=
      decide_eq_true (Nat.le_trans h (Nat.le_add_right clock _))
    unfold refusal
    rw [hpast, if_pos rfl]
    split
    · exact ⟨_, rfl⟩
    · split
      · exact ⟨_, rfl⟩
      · exact ⟨_, rfl⟩
  obtain ⟨reason, hreason⟩ := hrefusal
  unfold stepLoop
  rw [runStep_exhausted h]
  dsimp only
  rw [hreason]

theorem runSteps_cons (deadline : Option Nat) (step : Step) (rest : List Step) (clock : Nat) :
    runSteps policy deadline (step :: rest) clock =
      if (stepLoop policy deadline step maxStepAttempts 1 clock).1.stopped.isSome then
        [(stepLoop policy deadline step maxStepAttempts 1 clock).1]
      else if deadline.any fun t =>
          (stepLoop policy deadline step maxStepAttempts 1 clock).2 > t then
        [(stepLoop policy deadline step maxStepAttempts 1 clock).1]
      else
        (stepLoop policy deadline step maxStepAttempts 1 clock).1 ::
          runSteps policy deadline rest
            (stepLoop policy deadline step maxStepAttempts 1 clock).2 :=
  rfl

/-- The first step has an entry. -/
theorem head_runSteps (deadline : Option Nat) (step : Step) (rest : List Step) (clock : Nat) :
    (runSteps policy deadline (step :: rest) clock)[0]? =
      some (stepLoop policy deadline step maxStepAttempts 1 clock).1 := by
  rw [runSteps_cons]
  split
  · rfl
  · split <;> rfl

variable {effects : List Effect}

/-- A step that is done before the deadline is over is followed by the others. -/
theorem runSteps_doneStep (h : ∀ t ∈ deadline, clock + (effects.length + stepCostMs) ≤ t)
    (rest : List Step) :
    runSteps policy deadline (doneStep effects :: rest) clock =
      ⟨1, none⟩ :: runSteps policy deadline rest (clock + (effects.length + stepCostMs)) := by
  have hbefore : ∀ t ∈ deadline, clock < t := by
    intro t ht
    have hle := h t ht
    unfold stepCostMs at hle
    omega
  have hafter : ¬(deadline.any fun t => clock + (effects.length + stepCostMs) > t) = true := by
    rw [Option.any_eq_true]
    rintro ⟨t, ht, hgt⟩
    exact absurd (h t ht) (Nat.not_le_of_lt (of_decide_eq_true hgt))
  rw [runSteps_cons, stepLoop_doneStep hbefore]
  dsimp only
  rw [if_neg (show ¬(none : Option Reason).isSome = true from Bool.false_ne_true), if_neg hafter]

theorem clockBefore_cons (effects : List Effect) (before : List (List Effect)) :
    clockBefore (effects :: before) = effects.length + stepCostMs + clockBefore before := by
  unfold clockBefore
  rw [List.map_cons, List.sum_cons]

/-- The failing step is reached unless the deadline is over before it begins. -/
theorem entry_of_begins {deadline : Option Nat} (step : Step) (before : List (List Effect)) :
    ∀ clock, (∀ t ∈ deadline, clock + clockBefore before ≤ t) →
      (runSteps policy deadline (before.map doneStep ++ [step]) clock)[before.length]? =
        some (stepLoop policy deadline step maxStepAttempts 1 (clock + clockBefore before)).1 := by
  induction before with
  | nil =>
    intro clock _
    exact head_runSteps deadline step [] clock
  | cons effects before ih =>
    intro clock h
    rw [clockBefore_cons, ← Nat.add_assoc] at h ⊢
    have hdone : ∀ t ∈ deadline, clock + (effects.length + stepCostMs) ≤ t := fun t ht =>
      Nat.le_trans (Nat.le_add_right _ _) (h t ht)
    rw [List.map_cons, List.cons_append, runSteps_doneStep hdone]
    exact ih _ h

theorem no_entry_of_over (step : Step) (before : List (List Effect)) :
    ∀ clock, clock ≤ t → t < clock + clockBefore before →
      (runSteps policy (some t) (before.map doneStep ++ [step]) clock)[before.length]? = none := by
  induction before with
  | nil =>
    intro clock hclock hover
    exact absurd hover (Nat.not_lt_of_le hclock)
  | cons effects before ih =>
    intro clock hclock hover
    rw [clockBefore_cons, ← Nat.add_assoc] at hover
    by_cases hdone : clock + (effects.length + stepCostMs) ≤ t
    · have hall : ∀ t' ∈ some t, clock + (effects.length + stepCostMs) ≤ t' := by
        intro t' ht'
        rw [← Option.some.inj ht']
        exact hdone
      rw [List.map_cons, List.cons_append, runSteps_doneStep hall]
      exact ih _ hdone hover
    · have hone (entry : StepEntry) : [entry][(effects :: before).length]? = none := rfl
      rw [List.map_cons, List.cons_append, runSteps_cons]
      by_cases hlt : clock < t
      · have hbefore : ∀ t' ∈ some t, clock < t' := by
          intro t' ht'
          rw [← Option.some.inj ht']
          exact hlt
        rw [stepLoop_doneStep hbefore]
        dsimp only
        rw [if_neg (show ¬(none : Option Reason).isSome = true from Bool.false_ne_true),
          if_pos (show ((some t).any fun t => clock + (effects.length + stepCostMs) > t) = true from
            decide_eq_true (Nat.lt_of_not_le hdone))]
        exact hone _
      · rw [stepLoop_exhausted (Nat.le_of_not_lt hlt)]
        exact hone _

/-! ### The two modes -/

variable {before : List (List Effect)}

theorem stepCost_le_clockBefore (before : List (List Effect)) :
    stepCostMs * before.length ≤ clockBefore before := by
  induction before with
  | nil => exact Nat.le_refl 0
  | cons effects before ih =>
    rw [clockBefore_cons, List.length_cons, Nat.mul_succ]
    omega

/-- At the first attempt mode A's clock is not behind mode B's. -/
theorem late_of_counted (h : lateAt policy.timeoutMs (stepCostMs * before.length) f.counted 1 = true) :
    lateAt policy.timeoutMs (clockBefore before) f.spent 1 = true := by
  unfold lateAt pastDeadline at *
  cases hT : policy.timeoutMs with
  | none =>
    rw [hT] at h
    cases h
  | some t =>
    rw [hT] at h
    have hsum := stepCost_le_clockBefore before
    have hcost : f.spent 1 = f.failAt + f.counted 1 := by
      unfold FailingStep.spent FailingStep.counted
      rw [f.reached_one, f.costMs_one]
    have hle := of_decide_eq_true h
    apply decide_eq_true
    show clockBefore before + f.spent 1 + backoffMs 1 ≥ t
    have hle' : stepCostMs * before.length + f.counted 1 + backoffMs 1 ≥ t := hle
    omega

section

variable (hretry : 0 < policy.retry)
include hretry

section

variable (hrepeatable : repeatable f.effects = true)
include hrepeatable

theorem failureAttempts_eq (stepsBefore : Nat) :
    failureAttempts policy f.effects f.failAt stepsBefore =
      ((firstStop (lateAt policy.timeoutMs (stepCostMs * stepsBefore) f.counted)
          (attemptLimit policy - 1) 1).1,
        reasonOf (firstStop (lateAt policy.timeoutMs (stepCostMs * stepsBefore) f.counted)
          (attemptLimit policy - 1) 1).2) := by
  have hlimit : 1 ≤ attemptLimit policy := by
    unfold attemptLimit maxStepAttempts
    omega
  unfold failureAttempts
  rw [if_neg (Int.not_le.mpr hretry), hrepeatable]
  exact failureLoop_eq hretry _ _ maxStepAttempts 1 _ (Nat.le_refl 1) hlimit (Nat.le_succ _) rfl

/-- Mode B counts one attempt, for the deadline, iff the first attempt is late by its clock. -/
theorem counts_one_iff (stepsBefore : Nat) :
    (failureAttempts policy f.effects f.failAt stepsBefore).1 = 1 ↔
      lateAt policy.timeoutMs (stepCostMs * stepsBefore) f.counted 1 = true := by
  have hlimit : attemptLimit policy - 1 = (attemptLimit policy - 2) + 1 := by
    unfold attemptLimit maxStepAttempts
    omega
  rw [failureAttempts_eq hretry hrepeatable, hlimit]
  cases hlate : lateAt policy.timeoutMs (stepCostMs * stepsBefore) f.counted 1 with
  | true =>
    rw [Lib.firstStop_of_late hlate]
    exact iff_of_true rfl rfl
  | false =>
    rw [Lib.firstStop_of_not_late hlate]
    refine iff_of_false ?_ Bool.false_ne_true
    have hle := @Lib.le_firstStop (lateAt policy.timeoutMs (stepCostMs * stepsBefore) f.counted)
      (attemptLimit policy - 2) (1 + 1)
    intro hone
    dsimp only at hone
    omega

theorem reason_of_late {stepsBefore : Nat}
    (h : lateAt policy.timeoutMs (stepCostMs * stepsBefore) f.counted 1 = true) :
    (failureAttempts policy f.effects f.failAt stepsBefore).2 = .deadline := by
  have hlimit : attemptLimit policy - 1 = (attemptLimit policy - 2) + 1 := by
    unfold attemptLimit maxStepAttempts
    omega
  rw [failureAttempts_eq hretry hrepeatable, hlimit, Lib.firstStop_of_late h]
  rfl

/-- **The two modes** make the same attempts of a step for which both have the clock before the
deadline, and stop for the same reason, iff it leaves room for the same retries by either clock. -/
theorem room_iff (hrejection : ∀ e ∈ f.effects, e.kind ≠ .rejection)
    (hbefore : ∀ t ∈ policy.timeoutMs, clockBefore before < t) :
    ((stepLoop policy policy.timeoutMs f.toStep maxStepAttempts 1 (clockBefore before)).1.attempts =
        (failureAttempts policy f.effects f.failAt before.length).1 ∧
      (stepLoop policy policy.timeoutMs f.toStep maxStepAttempts 1 (clockBefore before)).1.stopped =
        some (failureAttempts policy f.effects f.failAt before.length).2) ↔
      ∀ a : Nat, 1 ≤ a → a ≤ policy.retry → a < maxStepAttempts →
        lateAt policy.timeoutMs (clockBefore before) f.spent a =
          lateAt policy.timeoutMs (stepCostMs * before.length) f.counted a := by
  have hlimit : 1 ≤ attemptLimit policy := by
    unfold attemptLimit maxStepAttempts
    omega
  have hstep := stepLoop_eq hretry hrepeatable hrejection (clockBefore before) maxStepAttempts 1
    (clockBefore before) (Nat.le_refl 1) hlimit (Nat.le_succ _) hbefore rfl
  have hpair := Lib.firstStop_eq_iff
    (staysLate_lateAt policy.timeoutMs (clockBefore before) f.spent)
    (staysLate_lateAt policy.timeoutMs (stepCostMs * before.length) f.counted)
    (attemptLimit policy - 1) 1
  have hrange : (∀ b, 1 ≤ b → b < 1 + (attemptLimit policy - 1) →
      lateAt policy.timeoutMs (clockBefore before) f.spent b =
        lateAt policy.timeoutMs (stepCostMs * before.length) f.counted b) ↔
      ∀ a : Nat, 1 ≤ a → a ≤ policy.retry → a < maxStepAttempts →
        lateAt policy.timeoutMs (clockBefore before) f.spent a =
          lateAt policy.timeoutMs (stepCostMs * before.length) f.counted a := by
    constructor
    · intro h a ha hbudget hceiling
      apply h a ha
      unfold attemptLimit
      omega
    · intro h a ha hlast
      unfold attemptLimit at hlast
      exact h a ha (by omega) (by omega)
  rw [← hrange, ← hpair, hstep, failureAttempts_eq hretry hrepeatable]
  constructor
  · rintro ⟨hattempts, hreason⟩
    exact Prod.ext hattempts (reasonOf_inj (Option.some.inj hreason))
  · intro heq
    rw [heq]
    exact ⟨rfl, rfl⟩

end

end

/-- The entry is what mode B counts. -/
def Counted (policy : Policy) (f : FailingStep) (stepsBefore : Nat) (entry : StepEntry) : Prop :=
  entry.attempts = (failureAttempts policy f.effects f.failAt stepsBefore).1 ∧
    (repeatable f.effects = true →
      entry.stopped = some (failureAttempts policy f.effects f.failAt stepsBefore).2)

theorem failureAttempts_of_not_retried (h : policy.retry ≤ 0) (stepsBefore : Nat) :
    failureAttempts policy f.effects f.failAt stepsBefore = (1, .budget) :=
  if_pos h

theorem failureAttempts_of_not_repeatable (h : 0 < policy.retry)
    (hrepeatable : repeatable f.effects = false) (stepsBefore : Nat) :
    failureAttempts policy f.effects f.failAt stepsBefore = (1, .effects) := by
  unfold failureAttempts
  rw [if_neg (Int.not_le.mpr h), hrepeatable]
  rfl

/-- Mode B counts one attempt of a step that is not retried or not to be repeated. -/
theorem counted_of_not_repeatable (hrepeatable : ¬repeatable f.effects = true) (stepsBefore : Nat)
    (stopped : Option Reason) : Counted policy f stepsBefore ⟨1, stopped⟩ := by
  refine ⟨?_, fun h => absurd h hrepeatable⟩
  by_cases hretry : policy.retry ≤ 0
  · rw [failureAttempts_of_not_retried hretry]
  · rw [failureAttempts_of_not_repeatable (Int.not_le.mp hretry) (Bool.not_eq_true _ ▸ hrepeatable)]

/-- Mode B counts an attempt that the deadline ends iff it is late by its clock. -/
theorem counted_deadline_iff (hretry : 0 < policy.retry) (hrepeatable : repeatable f.effects = true)
    (stepsBefore : Nat) :
    Counted policy f stepsBefore ⟨1, some .deadline⟩ ↔
      lateAt policy.timeoutMs (stepCostMs * stepsBefore) f.counted 1 = true := by
  rw [← counts_one_iff hretry hrepeatable]
  constructor
  · rintro ⟨hattempts, -⟩
    exact hattempts.symm
  · intro hone
    refine ⟨hone.symm, fun _ => ?_⟩
    rw [reason_of_late hretry hrepeatable ((counts_one_iff hretry hrepeatable stepsBefore).mp hone)]

/-- The conditions on a step that may not be repeated are empty. -/
theorem sameClocks_of_not_repeatable (hbegins : ∀ t ∈ policy.timeoutMs, clockBefore before ≤ t)
    (hrepeatable : ¬repeatable f.effects = true) : SameClocks policy before f where
  begins := hbegins
  retried h := absurd h hrepeatable
  room h := absurd h hrepeatable
  rejection h := absurd h hrepeatable

/-- The failing step begins at the deadline. -/
theorem counted_at_deadline_iff (hT : policy.timeoutMs = some (clockBefore before)) :
    Counted policy f before.length ⟨1, some .deadline⟩ ↔ SameClocks policy before f := by
  have hbegins : ∀ t ∈ policy.timeoutMs, clockBefore before ≤ t := by
    intro t ht
    rw [hT] at ht
    exact Nat.le_of_eq (Option.some.inj ht)
  by_cases hrepeatable : repeatable f.effects = true
  · by_cases hretry : policy.retry ≤ 0
    · -- the deadline ends the only attempt, which mode B counts against the budget
      refine iff_of_false ?_ fun h => h.retried hrepeatable hretry _ hT rfl
      rintro ⟨-, hreason⟩
      have hbudget := hreason hrepeatable
      rw [failureAttempts_of_not_retried hretry] at hbudget
      cases hbudget
    · have hlate (a : Nat) : lateAt policy.timeoutMs (clockBefore before) f.spent a = true := by
        have hmono : clockBefore before ≤ clockAfter (clockBefore before) f.spent a := by
          induction a with
          | zero => exact Nat.le_refl _
          | succ a ih => exact Nat.le_trans ih (clockAfter_le _ _ a)
        unfold lateAt
        rw [hT]
        exact decide_eq_true (Nat.le_trans hmono (Nat.le_add_right _ _))
      have hretry := Int.not_le.mp hretry
      rw [counted_deadline_iff hretry hrepeatable]
      constructor
      · intro hcounted
        refine ⟨hbegins, fun _ hle => absurd hretry (Int.not_lt.mpr hle), ?_, fun _ _ _ => hcounted⟩
        intro _ _ a ha _ _
        have hstays := (staysLate_lateAt policy.timeoutMs (stepCostMs * before.length) f.counted).le
          ha hcounted
        exact (hlate a).trans hstays.symm
      · intro h
        by_cases hrejection : ∀ e ∈ f.effects, e.kind ≠ .rejection
        · exact (h.room hrepeatable hrejection 1 (Nat.le_refl 1) hretry (by decide)).symm.trans
            (hlate 1)
        · apply h.rejection hrepeatable _ hretry
          rcases Classical.not_forall.mp hrejection with ⟨e, he⟩
          rcases Classical.not_imp.mp he with ⟨hmem, hkind⟩
          exact ⟨e, hmem, Classical.not_not.mp hkind⟩
  · exact iff_of_true (counted_of_not_repeatable hrepeatable _ _)
      (sameClocks_of_not_repeatable hbegins hrepeatable)

/-- An attempt before the deadline that is not repeated is the only one. -/
theorem stepLoop_refused {reason : Reason} (h : ∀ t ∈ deadline, clock < t)
    (hrefusal : refusal policy deadline f.effects 1 (clock + f.spent 1) = some reason)
    (left : Nat) :
    (stepLoop policy deadline f.toStep left 1 clock).1 = ⟨1, some reason⟩ := by
  unfold stepLoop
  rw [runStep_failing h]
  dsimp only
  have hrefusal' : refusal policy deadline f.toStep.effects 1 (clock + f.spent 1) = some reason :=
    hrefusal
  rw [hrefusal']

theorem refusal_of_not_retried (h : policy.retry ≤ 0) (deadline : Option Nat)
    (effects : List Effect) (clock : Nat) :
    refusal policy deadline effects 1 clock = some .budget := by
  have hbudget : ((1 : Nat) : Int) > policy.retry := by omega
  unfold refusal
  rw [if_pos hbudget, ite_self]

/-- A step that mode A does not repeat is refused for the deadline before its effects. -/
theorem refusal_of_not_repeated (h : 0 < policy.retry) (deadline : Option Nat)
    (hrepeated : ¬(repeatable effects = true ∧ ∀ e ∈ effects, e.kind ≠ .rejection)) (clock : Nat) :
    refusal policy deadline effects 1 clock =
      some (if pastDeadline deadline clock 1 then .deadline else .effects) := by
  have hbudget : ¬((1 : Nat) : Int) > policy.retry := by omega
  unfold refusal
  rw [if_neg (by decide), if_neg hbudget, if_neg (mt (repeated_iff effects).mp hrepeated)]
  cases pastDeadline deadline clock 1 with
  | true => rfl
  | false => rfl

/-- The failing step begins before the deadline and is repeatable, but has a rejection. -/
theorem counted_rejection_iff (hbefore : ∀ t ∈ policy.timeoutMs, clockBefore before < t)
    (hretry : 0 < policy.retry) (hrepeatable : repeatable f.effects = true)
    (hrejection : ¬∀ e ∈ f.effects, e.kind ≠ .rejection) (left : Nat) :
    Counted policy f before.length
        (stepLoop policy policy.timeoutMs f.toStep left 1 (clockBefore before)).1 ↔
      lateAt policy.timeoutMs (stepCostMs * before.length) f.counted 1 = true := by
  have hrefusal := refusal_of_not_repeated hretry policy.timeoutMs
    (fun h => hrejection h.2) (clockBefore before + f.spent 1)
  rw [stepLoop_refused hbefore hrefusal]
  cases hlate : pastDeadline policy.timeoutMs (clockBefore before + f.spent 1) 1 with
  | true =>
    rw [if_pos rfl]
    exact counted_deadline_iff hretry hrepeatable _
  | false =>
    have hnot : ¬lateAt policy.timeoutMs (stepCostMs * before.length) f.counted 1 = true := by
      intro hcounted
      have hspent : pastDeadline policy.timeoutMs (clockBefore before + f.spent 1) 1 = true :=
        late_of_counted hcounted
      rw [hlate] at hspent
      cases hspent
    refine iff_of_false ?_ hnot
    rintro ⟨hattempts, -⟩
    exact hnot ((counts_one_iff hretry hrepeatable _).mp hattempts.symm)

/-- The failing step begins before the deadline. -/
theorem counted_before_deadline_iff (hbefore : ∀ t ∈ policy.timeoutMs, clockBefore before < t) :
    Counted policy f before.length
        (stepLoop policy policy.timeoutMs f.toStep maxStepAttempts 1 (clockBefore before)).1 ↔
      SameClocks policy before f := by
  have hbegins : ∀ t ∈ policy.timeoutMs, clockBefore before ≤ t := fun t ht =>
    Nat.le_of_lt (hbefore t ht)
  have hretried : ∀ t ∈ policy.timeoutMs, clockBefore before ≠ t := fun t ht =>
    Nat.ne_of_lt (hbefore t ht)
  by_cases hrepeatable : repeatable f.effects = true
  · by_cases hretry : policy.retry ≤ 0
    · rw [stepLoop_refused hbefore (refusal_of_not_retried hretry _ _ _)]
      refine iff_of_true ?_ ⟨hbegins, fun _ _ => hretried, ?_, ?_⟩
      · unfold Counted
        rw [failureAttempts_of_not_retried hretry]
        exact ⟨rfl, fun _ => rfl⟩
      · intro _ _ a ha hbudget _
        omega
      · intro _ _ hpos
        omega
    · have hretry := Int.not_le.mp hretry
      by_cases hrejection : ∀ e ∈ f.effects, e.kind ≠ .rejection
      · have hroom := room_iff hretry hrepeatable hrejection hbefore
        constructor
        · rintro ⟨hattempts, hreason⟩
          refine ⟨hbegins, fun _ _ => hretried, ?_, ?_⟩
          · intro _ _
            exact hroom.mp ⟨hattempts, hreason hrepeatable⟩
          · rintro _ ⟨e, he, hkind⟩ _
            exact absurd hkind (hrejection e he)
        · intro h
          have hcounted := hroom.mpr (h.room hrepeatable hrejection)
          exact ⟨hcounted.1, fun _ => hcounted.2⟩
      · rw [counted_rejection_iff hbefore hretry hrepeatable hrejection]
        constructor
        · intro hcounted
          exact ⟨hbegins, fun _ _ => hretried, fun _ h => absurd h hrejection,
            fun _ _ _ => hcounted⟩
        · intro h
          apply h.rejection hrepeatable _ hretry
          rcases Classical.not_forall.mp hrejection with ⟨e, he⟩
          rcases Classical.not_imp.mp he with ⟨hmem, hkind⟩
          exact ⟨e, hmem, Classical.not_not.mp hkind⟩
  · refine iff_of_true ?_ (sameClocks_of_not_repeatable hbegins hrepeatable)
    by_cases hretry : policy.retry ≤ 0
    · rw [stepLoop_refused hbefore (refusal_of_not_retried hretry _ _ _)]
      exact counted_of_not_repeatable hrepeatable _ _
    · rw [stepLoop_refused hbefore (refusal_of_not_repeated (Int.not_le.mp hretry) _
        (fun h => hrepeatable h.1) _)]
      exact counted_of_not_repeatable hrepeatable _ _

/-- The failing step has an entry unless the deadline is over before it begins. -/
theorem sameAttempts_of_begins (hbegins : ∀ t ∈ policy.timeoutMs, clockBefore before ≤ t) :
    SameAttempts policy before f ↔ Counted policy f before.length
      (stepLoop policy policy.timeoutMs f.toStep maxStepAttempts 1 (clockBefore before)).1 := by
  have hentry : (runWorkflow policy (before.map doneStep ++ [f.toStep]))[before.length]? =
      some (stepLoop policy policy.timeoutMs f.toStep maxStepAttempts 1 (clockBefore before)).1 := by
    have h := @entry_of_begins policy policy.timeoutMs f.toStep before 0 (by
      rw [Nat.zero_add]
      exact hbegins)
    rw [Nat.zero_add] at h
    exact h
  constructor
  · rintro ⟨entry, h, hattempts, hreason⟩
    rw [← Option.some.inj (hentry.symm.trans h)] at hattempts hreason
    exact ⟨hattempts, hreason⟩
  · rintro ⟨hattempts, hreason⟩
    exact ⟨_, hentry, hattempts, hreason⟩

/-- No entry is made of a failing step that the deadline is over before. -/
theorem not_sameAttempts_of_over (hT : policy.timeoutMs = some t) (h : t < clockBefore before) :
    ¬SameAttempts policy before f := by
  rintro ⟨entry, hentry, -⟩
  have hnone : (runSteps policy (some t) (before.map doneStep ++ [f.toStep]) 0)[before.length]? =
      none := by
    apply no_entry_of_over f.toStep before 0 (Nat.zero_le t)
    rw [Nat.zero_add]
    exact h
  rw [runWorkflow, hT, hnone] at hentry
  cases hentry

/-- **Failure timing.**  Mode B counts the attempts that mode A makes of a failing step, and the
reason it stops for, iff the deadline is not over before the step begins and the milliseconds that
mode B does not count leave room for the same retries. -/
theorem sameAttempts_iff (policy : Policy) (before : List (List Effect)) (f : FailingStep) :
    SameAttempts policy before f ↔ SameClocks policy before f := by
  cases hT : policy.timeoutMs with
  | none =>
    have hbefore : ∀ t ∈ policy.timeoutMs, clockBefore before < t := by
      intro t ht
      rw [hT] at ht
      cases ht
    rw [sameAttempts_of_begins fun t ht => Nat.le_of_lt (hbefore t ht)]
    exact counted_before_deadline_iff hbefore
  | some t =>
    rcases Nat.lt_trichotomy (clockBefore before) t with hlt | heq | hgt
    · have hbefore : ∀ t' ∈ policy.timeoutMs, clockBefore before < t' := by
        intro t' ht'
        rw [hT] at ht'
        rw [← Option.some.inj ht']
        exact hlt
      rw [sameAttempts_of_begins fun t ht => Nat.le_of_lt (hbefore t ht)]
      exact counted_before_deadline_iff hbefore
    · rw [← heq] at hT
      have hbegins : ∀ t' ∈ policy.timeoutMs, clockBefore before ≤ t' := by
        intro t' ht'
        rw [hT] at ht'
        exact Nat.le_of_eq (Option.some.inj ht')
      rw [sameAttempts_of_begins hbegins, hT, stepLoop_exhausted (Nat.le_refl _)]
      exact counted_at_deadline_iff hT
    · refine iff_of_false (not_sameAttempts_of_over hT hgt) fun h => ?_
      exact absurd (h.begins t hT) (Nat.not_le_of_lt hgt)

/-- Mode A's clock counts the millisecond of an effect that was done, which mode B's does not: here
the deadline leaves no room for the retry by the one and leaves it by the other. -/
theorem not_sameAttempts_of_done_effect :
    ¬∀ (policy : Policy) (before : List (List Effect)) (f : FailingStep),
      SameAttempts policy before f := by
  intro h
  let read : Effect := { kind := .repositoryCall, operation := some .read }
  obtain ⟨entry, hentry, hattempts, -⟩ := h { retry := 1, timeoutMs := some 107 } [[read]]
    { effects := [read], failAt := ⟨0, Nat.one_pos⟩, reached := fun _ => 0,
      costMs := fun _ => 1, reached_one := rfl, costMs_one := rfl }
  have hentry' : some (StepEntry.mk 1 (some .deadline)) = some entry := hentry
  rw [← Option.some.inj hentry'] at hattempts
  exact absurd hattempts (by decide)

end Lnpl.Backend
