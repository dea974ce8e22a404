import Lnpl.Interp.Attempts
import Lnpl.Interp.Equiv.Separation

/-!
# The attempts that a record counts

The noted programs execute those of the run (`lockstep_step`, `watched_join`, `notes_item`), so that
the occurrences of a run carry its records.  Every occurrence is an `Account`: the attempts it
counts are those it has noted, they stay within the retry policy, and the effects were started wherever the
deadline was ahead and, after the first attempt, `cancel_event` was clear.

**`attempts_counted_iff`**: a record counts the starts of the effects of its step, and no retry
begins late, exactly where no attempt begins late and no retry is cancelled.
-/

namespace Lnpl.Interp

open Lnpl.Lib

variable {ρ χ ν : Type} {rt : Runtime ρ χ ν} {call : Call} {step : Step}

/-! ### Accounts -/

/-- The effects are started unless the deadline has passed, or the attempt is a further one and
`cancel_event` is set. -/
def Beginning.Faithful (call : Call) (first : Bool) (b : Beginning) : Prop :=
  b.started = (!b.late call && (first || !b.cancelled))

/-- The first of these attempts is the first of its step. -/
def Noted (call : Call) : List Beginning → Prop
  | [] => True
  | b :: rest => b.Faithful call true ∧ ∀ b' ∈ rest, b'.Faithful call false

variable {history : List Beginning} {b : Beginning} {rounds : Nat} {o : Occurrence}
  {c : NotedProgram ρ χ ν}

theorem Noted.concat (h : Noted call history) (hb : b.Faithful call history.isEmpty) :
    Noted call (history ++ [b]) := by
  cases history with
  | nil => exact ⟨hb, nofun⟩
  | cons first rest =>
    refine ⟨h.1, fun b' hb' => ?_⟩
    rcases List.mem_append.mp hb' with hrest | hlast
    · exact h.2 b' hrest
    · rw [List.mem_singleton.mp hlast]
      exact hb

/-- The attempts of a step that is over, as its record counts them. -/
structure Account (call : Call) (step : Step) (attempts : Nat) (history : List Beginning) :
    Prop where
  length : attempts = history.length
  begun : history ≠ []
  noted : Noted call history
  retries : attempts ≤ call.con.retry + 1
  ceiling : attempts ≤ maxStepAttempts
  once : (∃ e ∈ step.effects, e.idempotent = false) → attempts = 1

/-- The attempts of a step that may go on for so many rounds. -/
structure Underway (call : Call) (step : Step) (rounds : Nat) (history : List Beginning) :
    Prop where
  rounds : rounds + history.length = maxStepAttempts
  noted : Noted call history
  retried : history ≠ [] → history.length ≤ call.con.retry ∧ step.effects.all Effect.idempotent

theorem Underway.start : Underway call step maxStepAttempts [] where
  rounds := rfl
  noted := trivial
  retried h := absurd rfl h

/-- The loop ends with one more attempt. -/
theorem Underway.account (h : Underway call step (rounds + 1) history)
    (hb : b.Faithful call history.isEmpty) :
    Account call step (history.length + 1) (history ++ [b]) where
  length := by rw [List.length_append, List.length_singleton]
  begun := List.concat_ne_nil b history
  noted := h.noted.concat hb
  retries := by
    by_cases hnil : history = []
    · rw [hnil]
      exact Nat.le_add_left 1 _
    · have hretry := (h.retried hnil).1
      omega
  ceiling := by
    have hrounds := h.rounds
    omega
  once := by
    rintro ⟨e, he, hidem⟩
    by_cases hnil : history = []
    · rw [hnil]
      rfl
    · have hall := List.all_eq_true.mp (h.retried hnil).2 e he
      rw [hidem] at hall
      cases hall

/-- The loop goes on after one more attempt. -/
theorem Underway.next {now : Nat} (h : Underway call step (rounds + 1) history)
    (hb : b.Faithful call history.isEmpty) (hagain : retryable call step (history.length + 1) now) :
    Underway call step rounds (history ++ [b]) where
  rounds := by
    have hrounds := h.rounds
    rw [List.length_append, List.length_singleton]
    omega
  noted := h.noted.concat hb
  retried := by
    intro _
    simp only [retryable, Bool.and_eq_true, decide_eq_true_eq] at hagain
    obtain ⟨⟨⟨-, hretry⟩, -⟩, hall⟩ := hagain
    rw [List.length_append, List.length_singleton]
    exact ⟨hretry, hall⟩

/-- The loop has used up its rounds. -/
theorem Underway.exhausted (h : Underway call step 0 history) :
    Account call step history.length history := by
  have hlength : history.length = maxStepAttempts := by
    have hrounds := h.rounds
    omega
  have hnil : history ≠ [] := by
    rintro rfl
    exact absurd hlength (by decide)
  obtain ⟨hretry, hall⟩ := h.retried hnil
  refine ⟨rfl, hnil, h.noted, by omega, Nat.le_of_eq hlength, ?_⟩
  rintro ⟨e, he, hidem⟩
  have hall := List.all_eq_true.mp hall e he
  rw [hidem] at hall
  cases hall

/-! ### Noted steps -/

/-- The check of the deadline, as an attempt begins. -/
theorem attempt_eq (rt : Runtime ρ χ ν) (call : Call) (step : Step) (s : Exec ρ χ ν) :
    (do
      let now := (← get).now
      if call.deadline.any (· ≤ now) then
        fail ("deadline exhausted before step " ++ rt.lang.repr step.name) (some "deadline")
      : M ρ χ ν Unit) s =
    if call.deadline.any (· ≤ s.now) then
      .error (.run { message := "deadline exhausted before step " ++ rt.lang.repr step.name
                     failureKind := some "deadline" }) s
    else .ok () s := by
  show (if _ then _ else _ : M ρ χ ν Unit) s = _
  by_cases hlate : call.deadline.any (· ≤ s.now)
  · rw [if_pos hlate, if_pos hlate]
    rfl
  · rw [if_neg hlate, if_neg hlate]
    rfl

/-- How a noted attempt ends beside the attempt. -/
def AttemptNoted (call : Call) (signal : Bool) (p : Beginning × Option RunError)
    (result : Option RunError) : Prop :=
  p.2 = result ∧ p.1.cancelled = signal ∧ p.1.started = !p.1.late call

/-- A noted attempt executes the attempt. -/
theorem lockstep_attempt (rt : Runtime ρ χ ν) (call : Call) (signal : Bool) (step : Step) :
    Coro.Lockstep (AttemptNoted call signal) (notedAttempt rt call signal step)
      (attempt rt call step) := by
  refine .act_of_eq (fun s => ?_) fun s => ?_
  · rw [EStateM.final, EStateM.final, attempt_eq]
    by_cases hlate : call.deadline.any (· ≤ s.now)
    · rw [if_pos hlate]
      rfl
    · rw [if_neg hlate]
      rfl
  · beta_reduce
    rw [attempt_eq]
    by_cases hlate : call.deadline.any (· ≤ s.now)
    · rw [if_pos hlate]
      show Coro.Lockstep _ (if _ then _ else _) _
      rw [if_pos hlate]
      refine .ret ⟨rfl, rfl, ?_⟩
      rw [Beginning.late, hlate]
      rfl
    · rw [if_neg hlate]
      show Coro.Lockstep _ (if _ then _ else _) _
      rw [if_neg hlate]
      have hstarted : ∀ result,
          AttemptNoted call signal (⟨s.now, signal, true⟩, result) result := by
        intro result
        refine ⟨rfl, rfl, ?_⟩
        rw [Beginning.late, eq_false_of_ne_true hlate]
        rfl
      exact Coro.Lockstep.bind_ret hstarted _

/-- How a noted loop ends beside the loop. -/
def LoopNoted (call : Call) (step : Step) (p : List Beginning × Option RunError)
    (ended : Nat × Option RunError) : Prop :=
  p.2 = ended.2 ∧ Account call step ended.1 p.1

/-- A noted loop executes the loop, and counts what it notes. -/
theorem lockstep_loop (cancelled : Exec ρ χ ν → Bool) (h : Underway call step rounds history)
    (last : Option RunError) :
    Coro.Lockstep (LoopNoted call step) (notedLoop rt call cancelled step rounds history last)
      (attemptLoop rt call cancelled step rounds history.length last) := by
  induction rounds generalizing history last with
  | zero => exact .ret ⟨rfl, h.exhausted⟩
  | succ rounds ih =>
    refine .act_of_eq (fun s => rfl) fun s => ?_
    show Coro.Lockstep _ (if _ then _ else _) (if _ then _ else _)
    by_cases hstop : (decide (history.length + 1 > 1) && cancelled s) = true
    · rw [if_pos hstop, if_pos hstop]
      have hfurther : history.isEmpty = false := by
        cases history with
        | nil => cases hstop
        | cons => rfl
      refine .ret ⟨rfl, h.account ?_⟩
      rw [Beginning.Faithful, hfurther]
      exact (Bool.and_false _).symm
    · rw [if_neg hstop, if_neg hstop]
      have hclear : (history.isEmpty || !cancelled s) = true := by
        cases history with
        | nil => rfl
        | cons => simpa using hstop
      refine .pause ?_
      show Coro.Lockstep _ (notedAttempt rt call (cancelled s) step >>= _)
        (attempt rt call step >>= _)
      refine .bind (fun p result hp => ?_) (lockstep_attempt rt call (cancelled s) step)
      obtain ⟨b, result⟩ := p
      obtain ⟨rfl, hsignal, hstarted⟩ := hp
      have hb : b.Faithful call history.isEmpty := by
        rw [Beginning.Faithful, hsignal, hclear, Bool.and_true]
        exact hstarted
      cases result with
      | none => exact .ret ⟨rfl, h.account hb⟩
      | some error =>
        refine .pause (.act_of_eq (fun s => rfl) fun s => ?_)
        show Coro.Lockstep _ (if _ then _ else _) (if _ then _ else _)
        cases hagain : retryable call step (history.length + 1) s.now with
        | false => exact .ret ⟨rfl, h.account hb⟩
        | true =>
          have hnext := ih (h.next hb hagain) (some error)
          rw [List.length_append, List.length_singleton] at hnext
          exact .pause (.act_of_eq (fun s => rfl) fun s => .pause hnext)

/-! ### Outcomes -/

/-- A step without an error counts the attempts it was given. -/
theorem attempts_foldl_contribute (scope : Scope) (name : String) (effects : List Effect)
    (o : Outcome) : (effects.foldl (contribute rt scope name) o).attempts = o.attempts := by
  refine List.foldlRecOn (motive := (Outcome.attempts · = o.attempts)) effects _ rfl ?_
  intro o' h e _
  rw [← h]
  cases e <;> rfl

theorem attempts_finishStep (rt : Runtime ρ χ ν) (call : Call) (step : Step) (attempts : Nat)
    (error : Option RunError) (s : Exec ρ χ ν) :
    ∃ o t, finishStep rt call step attempts error s = .ok o t ∧ o.attempts = attempts := by
  cases error with
  | none => exact ⟨_, s, rfl, attempts_foldl_contribute _ _ _ _⟩
  | some error => exact ⟨_, _, rfl, rfl⟩

/-- How a noted step ends beside the step. -/
def StepNoted (call : Call) (step : Step) (p : List Beginning × Outcome) (o : Outcome) : Prop :=
  p.2 = o ∧ Account call step o.attempts p.1

/-- **A noted step executes the step**, and its outcome counts what it has noted. -/
theorem lockstep_step (rt : Runtime ρ χ ν) (call : Call) (cancelled : Exec ρ χ ν → Bool)
    (step : Step) :
    Coro.Lockstep (StepNoted call step) (notedStep rt call cancelled step)
      (executeStep rt call cancelled step) := by
  refine .bind (fun p ended hended => ?_) (lockstep_loop cancelled Underway.start none)
  obtain ⟨history, error⟩ := p
  obtain ⟨attempts, error'⟩ := ended
  obtain ⟨rfl, haccount⟩ := hended
  have hlength : attempts = history.length := haccount.length
  subst hlength
  refine .pause (.act_of_eq (fun s => rfl) fun s => ?_)
  obtain ⟨o, t, hfinish, hattempts⟩ := attempts_finishStep rt call step history.length error s
  beta_reduce
  rw [hfinish]
  refine .ret ⟨rfl, ?_⟩
  rw [hattempts]
  exact haccount

/-! ### The law -/

/-- All attempts have started if none is late and no further one is cancelled. -/
theorem Noted.started_iff (h : Noted call history) :
    (∀ b ∈ history, b.started = true) ↔
      (∀ b ∈ history, b.late call = false) ∧ ∀ b ∈ history.tail, b.cancelled = false := by
  cases history with
  | nil => exact ⟨fun _ => ⟨nofun, nofun⟩, fun _ => nofun⟩
  | cons first rest =>
    have hfirst : first.started = true ↔ first.late call = false := by
      rw [h.1]
      simp
    have hrest : ∀ b ∈ rest, b.started = true ↔ b.late call = false ∧ b.cancelled = false := by
      intro b hb
      rw [h.2 b hb]
      simp
    rw [List.forall_mem_cons, List.forall_mem_cons, List.tail_cons, hfirst, forall₂_congr hrest,
      and_assoc]
    simp only [imp_and, forall_and]

/-- The law holds of an account exactly where it is clear. -/
theorem Account.counted_iff (h : Account call o.step o.record.attempts o.history) :
    Counted call o ↔ Clear call o := by
  have hstarts : o.record.attempts = o.history.countP Beginning.started ↔
      ∀ b ∈ o.history, b.started = true := by
    rw [h.length, eq_comm, List.countP_eq_length]
  constructor
  · intro hcounted
    obtain ⟨hlate, hcancelled⟩ := h.noted.started_iff.mp (hstarts.mp hcounted.starts)
    exact ⟨hlate, hcancelled⟩
  · intro hclear
    refine ⟨hstarts.mpr (h.noted.started_iff.mpr ⟨hclear.inTime, hclear.uncancelled⟩),
      Nat.le_min.mpr ⟨h.retries, h.ceiling⟩, h.once, ?_⟩
    exact fun b hb => hclear.inTime b (List.mem_of_mem_tail hb)

/-! ### The main loop's own steps -/

/-- A further attempt of these is neither late nor cancelled. -/
def FurtherClear (call : Call) (history : List Beginning) : Prop :=
  ∀ b ∈ history.tail, b.late call = false ∧ b.cancelled = false

theorem FurtherClear.concat (h : FurtherClear call history)
    (hb : history ≠ [] → b.late call = false ∧ b.cancelled = false) :
    FurtherClear call (history ++ [b]) := by
  cases history with
  | nil => exact nofun
  | cons first rest =>
    intro b' hb'
    rcases List.mem_append.mp hb' with hrest | hlast
    · exact h b' hrest
    · rw [List.mem_singleton.mp hlast]
      exact hb (List.cons_ne_nil first rest)

/-- A noted attempt notes the clock it is begun at. -/
theorem notedAttempt_begins (rt : Runtime ρ χ ν) (call : Call) (signal : Bool) (step : Step)
    (s : Exec ρ χ ν) :
    Ends (fun p _ => p.1.now = s.now ∧ p.1.cancelled = signal) (fun _ _ => True)
      ((notedAttempt rt call signal step).run s) := by
  have hspec (attempt : Coro (Exec ρ χ ν) Exc (Option RunError)) :
      Coro.Spec (fun _ => True) (fun p => p.1.now = s.now ∧ p.1.cancelled = signal)
      (fun _ => True) (if call.deadline.any (· ≤ s.now) then
        pure (⟨s.now, signal, false⟩,
          some { message := "deadline exhausted before step " ++ rt.lang.repr step.name
                 failureKind := some "deadline" })
      else (do
        let error ← attempt
        return (⟨s.now, signal, true⟩, error)) :
        Coro (Exec ρ χ ν) Exc (Beginning × Option RunError)) := by
    by_cases hlate : call.deadline.any (· ≤ s.now)
    · rw [if_pos hlate]
      exact ⟨rfl, rfl⟩
    · rw [if_neg hlate]
      refine Coro.Spec.bind (Q := fun _ => True) (fun error _ => ?_) (Coro.Spec.any _)
      exact ⟨rfl, rfl⟩
  exact ((hspec _).run s trivial).mono (fun _ _ h => h.2) fun _ _ _ => trivial

/-- Alone, a retry is begun before the deadline. -/
theorem notedLoop_alone (last : Option RunError) (h : FurtherClear call history) :
    Triple (fun s => history ≠ [] → call.deadline.any (· ≤ s.now) = false)
      (notedLoop rt call (fun _ => false) step rounds history last).run
      (fun p _ => FurtherClear call p.1) fun _ _ => True := by
  induction rounds generalizing history last with
  | zero => exact fun s _ => h
  | succ rounds ih =>
    intro s hs
    show Ends _ _ (Coro.run (if _ then _ else _) s)
    rw [if_neg (by rw [Bool.and_false]; exact Bool.false_ne_true)]
    show Ends _ _ ((notedAttempt rt call false step >>= _).run s)
    rw [Coro.run_bind]
    refine Triple.bind (P := fun s' => s' = s)
      (Q := fun p _ => p.1.now = s.now ∧ p.1.cancelled = false) ?_ (fun p => ?_) s rfl
    · rintro _ rfl
      exact notedAttempt_begins rt call false step _
    · obtain ⟨b, result⟩ := p
      refine Triple.mono (Triple.assume (P := fun _ => True) fun hb => ?_) (fun s h => ⟨h, trivial⟩)
        (fun _ _ => id) fun _ _ => id
      have hfurther : FurtherClear call (history ++ [b]) := by
        refine h.concat fun hnil => ⟨?_, hb.2⟩
        rw [Beginning.late, hb.1]
        exact hs hnil
      cases result with
      | none => exact fun _ _ => hfurther
      | some error =>
        intro t _
        show Ends _ _ (Coro.run (if _ then _ else _) t)
        cases hagain : retryable call step (history.length + 1) t.now with
        | false => exact hfurther
        | true =>
          refine ih (some error) hfurther _ fun _ => ?_
          simp only [retryable, Bool.and_eq_true, Bool.not_eq_true'] at hagain
          exact hagain.1.2

/-- A step of the main loop notes no late retry. -/
theorem notedStep_alone (rt : Runtime ρ χ ν) (call : Call) (step : Step) (s : Exec ρ χ ν) :
    Ends (fun p _ => FurtherClear call p.1) (fun _ _ => True)
      ((notedStep rt call (fun _ => false) step).run s) := by
  rw [notedStep, Coro.run_bind]
  have hstart : FurtherClear call [] := nofun
  refine Triple.bind (notedLoop_alone none hstart) (fun p => ?_) s fun h => absurd rfl h
  intro t hp
  have hrest : ∀ o : Outcome, Coro.Spec (fun _ => True) (fun p => FurtherClear call p.1)
      (fun _ => True) (.ret (p.1, o) : NotedProgram ρ χ ν) := fun _ => hp
  have hspec := Coro.Spec.bind (fun _ _ => Coro.Spec.bind (fun o _ => hrest o)
    (Coro.Spec.any (Coro.lift (finishStep rt call step p.1.length p.2))))
    (Coro.Spec.any (.pause (.ret ()) : Coro (Exec ρ χ ν) Exc Unit))
  exact (hspec.run t trivial).mono (fun _ _ h => h.2) fun _ _ _ => trivial

/-! ### Watched blocks -/

/-- What a worker of a block has beside it. -/
inductive Beside (rt : Runtime ρ χ ν) (call : Call) (step : Step) :
    Worker ρ χ ν → NotedProgram ρ χ ν → Prop
  | pending : Beside rt call step .pending (notedStep rt call Exec.cancelEvent step)
  | running (start : Nat) {program : Coro (Exec ρ χ ν) Exc Outcome} {c : NotedProgram ρ χ ν}
      (h : Coro.Lockstep (StepNoted call step) c program) (hc : ∀ p, c ≠ .ret p) :
      Beside rt call step (.running start program) c
  | done (start : Nat) {history : List Beginning} {o : Outcome}
      (h : Account call step o.attempts history) :
      Beside rt call step (.done start o) (.ret (history, o))
  | raised (e : Exc) : Beside rt call step (.raised e) (.fail e)
  | cancelled : Beside rt call step .cancelled (notedStep rt call Exec.cancelEvent step)

variable {program : Coro (Exec ρ χ ν) Exc Outcome} {worker : Worker ρ χ ν}
  {item : Nat → L ρ χ ν Flow} {noted : Nat → N ρ χ ν Flow} {t : Session ρ χ ν} {result : Result}

theorem beside_settle (start : Nat) (h : Coro.Lockstep (StepNoted call step) c program) :
    Beside rt call step (Worker.settle start program) c := by
  cases h with
  | ret h =>
    obtain ⟨rfl, haccount⟩ := h
    exact .done start haccount
  | fail e => exact .raised e
  | act h => exact .running start (.act h) nofun
  | pause h => exact .running start (.pause h) nofun

theorem beside_completed (start : Nat) (h : Coro.Lockstep (StepNoted call step) c program)
    (s : Exec ρ χ ν) :
    Beside rt call step (Worker.ofResult start (program.run s)).2 (c.completed s) := by
  rcases h.run s with ⟨p, o, t, hp, hc, hprogram⟩ | ⟨e, t, hc, hprogram⟩
  · rw [Coro.completed, hc, hprogram]
    obtain ⟨rfl, haccount⟩ := hp
    exact .done start haccount
  · rw [Coro.completed, hc, hprogram]
    exact .raised e

/-- A block whose workers have their noted programs beside them. -/
structure Accompanied (rt : Runtime ρ χ ν) (call : Call) (steps : List Step)
    (w : Watched ρ χ ν) : Prop where
  workers : w.block.workers.length = steps.length
  noted : w.noted.length = steps.length
  beside : ∀ {i : Nat} {step worker c}, steps[i]? = some step →
    w.block.workers[i]? = some worker → w.noted[i]? = some c → Beside rt call step worker c

namespace Accompanied

variable {steps : List Step} {w : Watched ρ χ ν}

variable {i : Nat} {worker : Worker ρ χ ν}

/-- One worker takes a step, and its noted program with it. -/
theorem set (h : Accompanied rt call steps w) {worker' : Worker ρ χ ν}
    {f : NotedProgram ρ χ ν → NotedProgram ρ χ ν} (hi : w.block.workers[i]? = some worker)
    (hstep : ∀ step c, steps[i]? = some step → Beside rt call step worker c →
      Beside rt call step worker' (f c)) (s : Exec ρ χ ν) :
    Accompanied rt call steps ⟨{ w.block with exec := s, workers := w.block.workers.set i worker' },
      w.noted.modify i f⟩ where
  workers := by rw [List.length_set, h.workers]
  noted := by rw [List.length_modify, h.noted]
  beside := by
    intro j step worker₁ c hj hworker hc
    by_cases hij : i = j
    · subst hij
      rw [List.getElem?_set_self (List.getElem?_eq_some_iff.mp hi).1, Option.some.injEq] at hworker
      subst hworker
      rw [List.getElem?_modify_eq] at hc
      obtain ⟨c₀, hc₀, rfl⟩ := Option.map_eq_some_iff.mp hc
      exact hstep step c₀ hj (h.beside hj hi hc₀)
    · rw [List.getElem?_set_ne hij] at hworker
      rw [List.getElem?_modify_ne _ _ hij] at hc
      exact h.beside hj hworker hc

/-- The programs of the block. -/
abbrev programs (rt : Runtime ρ χ ν) (call : Call) (steps : List Step) :
    List (Coro (Exec ρ χ ν) Exc Outcome) :=
  steps.map (executeStepWithRetry rt call)

section

variable (h : Accompanied rt call steps w)
include h

theorem exists_program (hi : w.block.workers[i]? = some worker) :
    ∃ step, steps[i]? = some step ∧ (programs rt call steps)[i]? =
      some (executeStepWithRetry rt call step) := by
  have hlt := (List.getElem?_eq_some_iff.mp hi).1
  rw [h.workers] at hlt
  refine ⟨steps[i], List.getElem?_eq_getElem hlt, ?_⟩
  rw [List.getElem?_map, List.getElem?_eq_getElem hlt, Option.map_some]

theorem move (cap : Nat) (m : Move) :
    Accompanied rt call steps (w.move cap (programs rt call steps) m) := by
  cases m with
  | tick ms => exact ⟨h.workers, h.noted, h.beside⟩
  | run i =>
    unfold Watched.move Block.move Block.sliced
    dsimp only
    cases hi : w.block.workers[i]? with
    | none => exact h
    | some worker =>
      obtain ⟨step, hstep, hprogram⟩ := h.exists_program hi
      cases worker with
      | pending =>
        rw [hprogram]
        dsimp only
        by_cases hstart : w.block.mayStart cap i
        · rw [if_pos hstart, if_pos hstart]
          refine h.set hi (fun step' c hstep' hbeside => ?_) _
          rw [hstep, Option.some.injEq] at hstep'
          subst hstep'
          cases hbeside with
          | pending =>
            have hslice := (lockstep_step rt call Exec.cancelEvent step).slice w.block.exec
            exact beside_settle _ hslice.2
        · rw [if_neg hstart, if_neg hstart]
          exact h
      | running start program =>
        refine h.set hi (fun step' c hstep' hbeside => ?_) _
        cases hbeside with
        | running _ hlock _ => exact beside_settle start (hlock.slice w.block.exec).2
      | done start o => exact h
      | raised e => exact h
      | cancelled => exact h
  | signal =>
    unfold Watched.move Block.move Block.sliced
    dsimp only
    by_cases hfailed : w.block.workers.any Worker.failed
    · rw [if_pos hfailed]
      exact ⟨h.workers, h.noted, h.beside⟩
    · rw [if_neg hfailed]
      exact h
  | cancel i =>
    unfold Watched.move Block.move Block.sliced
    dsimp only
    cases hi : w.block.workers[i]? with
    | none => exact h
    | some worker =>
      cases worker with
      | pending =>
        dsimp only
        by_cases hfailed : w.block.exec.cancelEvent && w.block.workers.any Worker.failed
        · rw [if_pos hfailed]
          have hcancelled : ∀ step c, steps[i]? = some step → Beside rt call step .pending c →
              Beside rt call step .cancelled (id c) := by
            intro step c _ hbeside
            cases hbeside with
            | pending => exact .cancelled
          have hset := h.set hi hcancelled w.block.exec
          rw [List.modify_id] at hset
          exact hset
        · rw [if_neg hfailed]
          exact h
      | running start program => exact h
      | done start o => exact h
      | raised e => exact h
      | cancelled => exact h

theorem drainRunning (i : Nat) : Accompanied rt call steps (w.drainRunning i) := by
  unfold Watched.drainRunning Block.drainRunning
  cases hi : w.block.workers[i]? with
  | none => exact h
  | some worker =>
    cases worker with
    | running start program =>
      refine h.set hi (fun step c _ hbeside => ?_) _
      cases hbeside with
      | running _ hlock _ => exact beside_completed start hlock w.block.exec
    | pending => exact h
    | done start o => exact h
    | raised e => exact h
    | cancelled => exact h

theorem drainPending (i : Nat) :
    Accompanied rt call steps (w.drainPending (programs rt call steps) i) := by
  unfold Watched.drainPending Block.drainPending
  cases hi : w.block.workers[i]? with
  | none => exact h
  | some worker =>
    obtain ⟨step, hstep, hprogram⟩ := h.exists_program hi
    cases worker with
    | pending =>
      rw [hprogram]
      refine h.set hi (fun step' c hstep' hbeside => ?_) _
      rw [hstep, Option.some.injEq] at hstep'
      subst hstep'
      cases hbeside with
      | pending =>
        exact beside_completed _ (lockstep_step rt call Exec.cancelEvent step) w.block.exec
    | running start program => exact h
    | done start o => exact h
    | raised e => exact h
    | cancelled => exact h

end

theorem foldl {α : Type} {f : Watched ρ χ ν → α → Watched ρ χ ν}
    (hf : ∀ w, Accompanied rt call steps w → ∀ a, Accompanied rt call steps (f w a)) (l : List α)
    (h : Accompanied rt call steps w) : Accompanied rt call steps (l.foldl f w) :=
  List.foldlRecOn l f h fun w hw a _ => hf w hw a

theorem join (h : Accompanied rt call steps w) (cap : Nat) (moves : List Move) :
    Accompanied rt call steps (w.join cap (programs rt call steps) moves) :=
  foldl (fun _ h i => h.drainPending i) _ <| foldl (fun _ h i => h.drainRunning i) _ <|
    foldl (fun _ h m => h.move cap m) _ h

end Accompanied

/-- The workers of a block are watched to the end. -/
theorem watchWorkers_accompanied (rt : Runtime ρ χ ν) (call : Call) (steps : List Step)
    (moves : List Move) (s : Exec ρ χ ν) :
    Accompanied rt call steps (watchWorkers rt call steps moves s) := by
  refine Accompanied.join ⟨List.length_map _, List.length_map _, ?_⟩ _ moves
  intro i step worker c hstep hworker hc
  rw [List.getElem?_map, hstep, Option.map_some, Option.some.injEq] at hworker hc
  subst hworker hc
  exact .pending

/-- The block that is watched is the one that runs. -/
theorem watched_join (cap : Nat) (programs : List (Coro (Exec ρ χ ν) Exc Outcome))
    (moves : List Move) (w : Watched ρ χ ν) :
    (w.join cap programs moves).block = w.block.join cap programs moves := by
  have hmove : ∀ (w : Watched ρ χ ν) m, Block.move cap programs w.block m =
      (w.move cap programs m).block := fun _ _ => rfl
  have hrunning : ∀ (w : Watched ρ χ ν) i, Block.drainRunning w.block i =
      (w.drainRunning i).block := fun _ _ => rfl
  have hpending : ∀ (w : Watched ρ χ ν) i, Block.drainPending programs w.block i =
      (w.drainPending programs i).block := fun _ _ => rfl
  simp only [Watched.join, Block.join]
  rw [List.foldl_hom Watched.block hmove, List.foldl_hom Watched.block hrunning,
    List.foldl_hom Watched.block hpending]

theorem watchWorkers_block (rt : Runtime ρ χ ν) (call : Call) (steps : List Step)
    (moves : List Move) (s : Exec ρ χ ν) :
    runWorkers rt call steps moves s =
      ((watchWorkers rt call steps moves s).block.exec,
        (watchWorkers rt call steps moves s).block.workers.map Worker.finish) := by
  rw [watchWorkers, watched_join, runWorkers]

/-! ### Records -/

/-- The record of a worker that left an outcome. -/
def endRecord (block : Nat) (under : List Nat) (step : Step) : WorkerEnd → Option StepRecord
  | .done _ o => some (stepRecord step (some block) under o)
  | _ => none

theorem join_steps (under : List Nat) (steps : List Step) (ends : List WorkerEnd)
    (s : Exec ρ χ ν) (r : Run ρ χ ν) : (r.join under steps ends s).steps =
      r.steps ++ (steps.zip ends).filterMap fun p => endRecord r.blocks.length under p.1 p.2 := by
  rw [(join_fields under steps ends s r).1]
  refine congrArg (r.steps ++ List.filterMap · (steps.zip ends)) (funext fun p => ?_)
  rcases p with ⟨step, _ | _ | _⟩ <;> rfl

/-- A worker has a record exactly where its noted program has a result. -/
theorem Beside.record (h : Beside rt call step worker c) (block : Nat) (under : List Nat) :
    endRecord block under step worker.finish =
      (workerOccurrence block under step c).map Occurrence.record := by
  cases h with
  | pending => rfl
  | running start _ hc =>
    cases c with
    | ret p => exact absurd rfl (hc p)
    | fail e => rfl
    | act upd next => rfl
    | pause rest => rfl
  | done start _ => rfl
  | raised e => rfl
  | cancelled => rfl

/-- The occurrences of workers whose noted programs are beside them carry their records. -/
theorem Accompanied.records {steps : List Step} {w : Watched ρ χ ν}
    (h : Accompanied rt call steps w) (block : Nat) (under : List Nat) :
    ((steps.zip (w.block.workers.map Worker.finish)).filterMap fun p =>
        endRecord block under p.1 p.2) =
      ((steps.zip w.noted).filterMap fun p => workerOccurrence block under p.1 p.2).map
        Occurrence.record := by
  obtain ⟨⟨exec, workers, wall⟩, noted⟩ := w
  obtain ⟨hworkers, hnoted, hbeside⟩ := h
  dsimp only at hworkers hnoted hbeside ⊢
  induction steps generalizing workers noted with
  | nil => rfl
  | cons step steps ih =>
    cases workers with
    | nil => cases hworkers
    | cons worker workers =>
      cases noted with
      | nil => cases hnoted
      | cons c noted =>
        have hfirst := (hbeside (i := 0) rfl rfl rfl).record block under
        have hrest := ih noted workers (Nat.succ.inj hworkers) (Nat.succ.inj hnoted)
          fun {i} step worker c hi hworker hc => hbeside (i := i + 1) hi hworker hc
        rw [List.map_cons, List.zip_cons_cons, List.zip_cons_cons, List.filterMap_cons,
          List.filterMap_cons, hfirst]
        cases workerOccurrence block under step c with
        | none => exact hrest
        | some o => exact congrArg (o.record :: ·) hrest

/-! ### The tally of a run -/

/-- An occurrence of one of these steps: its record is the step's, and accounts for its attempts. -/
structure Tallies (call : Call) (declared : List Step) (o : Occurrence) : Prop where
  declared : o.step ∈ declared
  record : o.record.stepId = o.step.id
  account : Account call o.step o.record.attempts o.history
  alone : o.record.block = none → FurtherClear call o.history

/-- The occurrences carry the records of the run. -/
structure Tallied (call : Call) (declared : List Step) (p : Run ρ χ ν × List Occurrence) :
    Prop where
  records : p.1.steps = p.2.map Occurrence.record
  tallies : ∀ o ∈ p.2, Tallies call declared o

variable {declared : List Step}

theorem Tallied.append {r t : Run ρ χ ν} {notes added : List Occurrence}
    (h : Tallied call declared (r, notes))
    (hsteps : t.steps = r.steps ++ added.map Occurrence.record)
    (hadded : ∀ o ∈ added, Tallies call declared o) :
    Tallied call declared (t, notes ++ added) where
  records := by
    rw [hsteps, List.map_append, h.records]
  tallies o ho := by
    rcases List.mem_append.mp ho with hold | hnew
    · exact h.tallies o hold
    · exact hadded o hnew

/-- A program that leaves the records as they are. -/
theorem notes_unnoted {α : Type} {m : L ρ χ ν α}
    (h : ∀ records, Keeps (fun r : Run ρ χ ν => r.steps = records) m) :
    Notes (Tallied call declared) (EStateM.unnoted m) m := by
  refine Notes.unnoted fun notes r hr => ?_
  refine (h r.steps r rfl).mono (fun _ t ht => ?_) fun _ t ht => ?_
  · exact ⟨ht.trans hr.records, hr.tallies⟩
  · exact ⟨ht.trans hr.records, hr.tallies⟩

/-! ### Steps of the main loop -/

/-- A step that ends has one record more; one that is left by an exception has none. -/
theorem runSequentialStep_steps (rt : Runtime ρ χ ν) (call : Call) (under : List Nat) (step : Step)
    (r : Run ρ χ ν) :
    (∀ o s, executeStepInline rt call step r.exec = .ok o s →
        Ends (fun _ t => t.steps = r.steps ++ [stepRecord step none under o]) (fun _ _ => False)
          (runSequentialStep rt call under step r)) ∧
      ∀ e s, executeStepInline rt call step r.exec = .error e s →
        Ends (fun _ _ => False) (fun _ t => t.steps = r.steps)
          (runSequentialStep rt call under step r) := by
  constructor
  · intro o s hstep
    have honExec : onExec (executeStepInline rt call step) r = .ok o { r with exec := s } :=
      EStateM.zoom_ok hstep
    rw [runSequentialStep, EStateM.bind_ok honExec]
    refine Triple.bind (P := fun t => t.steps = r.steps)
      (Q := fun _ t => t.steps = r.steps ++ [stepRecord step none under o])
      (Triple.modify fun t ht => ?_) (fun _ => ?_) { r with exec := s } rfl
    · exact congrArg (· ++ [stepRecord step none under o]) ht
    · cases o.error with
      | some e => exact Triple.bind (Triple.modify fun _ h => h) fun _ => Triple.pure fun _ h => h
      | none =>
        refine Triple.bind (Q := fun _ t => t.steps = r.steps ++ [stepRecord step none under o])
          (Triple.get fun _ h => h) fun t => Triple.ite (fun _ => ?_) fun _ => ?_
        · exact Triple.bind (Triple.modify fun _ h => h) fun _ => Triple.pure fun _ h => h
        · exact Triple.pure fun _ h => h
  · intro e s hstep
    have honExec : onExec (executeStepInline rt call step) r = .error e { r with exec := s } :=
      EStateM.zoom_error hstep
    rw [runSequentialStep, EStateM.bind_error honExec]
    rfl

theorem notes_sequential {step : Step} (hstep : step ∈ declared) (under : List Nat) :
    Notes (Tallied (ρ := ρ) (χ := χ) (ν := ν) call declared) (noteSequentialStep rt call under step)
      (runSequentialStep rt call under step) := by
  refine Notes.noting fun r notes hr => ?_
  obtain ⟨hok, herror⟩ := runSequentialStep_steps rt call under step r
  have halone := notedStep_alone rt call step r.exec
  rcases (lockstep_step rt call (fun _ => false) step).run r.exec with
    ⟨p, o, s, hp, hnoted, hrun⟩ | ⟨e, s, hnoted, hrun⟩
  · obtain ⟨history, o'⟩ := p
    obtain ⟨rfl, haccount⟩ := hp
    rw [hnoted] at halone
    have hnotes : sequentialOccurrence rt call under step r.exec =
        [⟨step, stepRecord step none under o', history⟩] := by
      rw [sequentialOccurrence, hnoted]
    rw [hnotes]
    have htally : ∀ o ∈ [(⟨step, stepRecord step none under o', history⟩ : Occurrence)],
        Tallies call declared o := by
      intro o ho
      rw [List.mem_singleton.mp ho]
      exact ⟨hstep, rfl, haccount, fun _ => halone⟩
    exact (hok o' s hrun).mono (fun _ t ht => hr.append ht htally) fun _ _ => False.elim
  · have hnotes : sequentialOccurrence rt call under step r.exec = [] := by
      rw [sequentialOccurrence, hnoted]
    rw [hnotes]
    refine (herror e s hrun).mono (fun _ _ => False.elim) fun _ t ht => hr.append ?_ nofun
    rw [ht]
    exact (List.append_nil _).symm

/-! ### Blocks of the main loop -/

theorem runParallelBlock_steps (rt : Runtime ρ χ ν) (call : Call) (schedules : Nat → List Move)
    (under : List Nat) (steps : List Step) (r : Run ρ χ ν) :
    Ends (fun _ t => t.steps = r.steps ++
        (blockOccurrences rt call schedules under steps r).map Occurrence.record)
      (fun _ _ => False) (runParallelBlock rt call schedules under steps r) := by
  have hwatched := watchWorkers_accompanied rt call steps (schedules r.blocks.length) r.exec
  have hrecords := hwatched.records r.blocks.length under
  have hjoin : (r.join under steps (runWorkers rt call steps (schedules r.blocks.length) r.exec).2
      (runWorkers rt call steps (schedules r.blocks.length) r.exec).1).steps = r.steps ++
        (blockOccurrences rt call schedules under steps r).map Occurrence.record := by
    rw [join_steps, watchWorkers_block]
    exact congrArg (r.steps ++ ·) hrecords
  generalize blockOccurrences rt call schedules under steps r = added at hjoin ⊢
  have hblock : Triple (fun t => t = r) (runParallelBlock rt call schedules under steps)
      (fun _ t => t.steps = r.steps ++ added.map Occurrence.record) fun _ _ => False := by
    refine Triple.bind (Q := fun r' t => r' = r ∧ t = r) (Triple.get fun t ht => ⟨ht, ht⟩) fun r' =>
      Triple.assume fun hr' => ?_
    subst hr'
    refine Triple.bind (Q := fun _ t => t.steps = r'.steps ++ added.map Occurrence.record)
      (Triple.modify fun t ht => ?_) fun _ => Triple.ite (fun _ => Triple.pure fun _ => id)
        fun _ => ?_
    · rw [ht]
      exact hjoin
    · cases steps.getLast? with
      | none => exact Triple.pure fun _ => id
      | some last =>
        refine Triple.bind (Q := fun _ t => t.steps = r'.steps ++ added.map Occurrence.record)
          (Triple.get fun _ => id) fun t => Triple.ite (fun _ => ?_)
            fun _ => Triple.pure fun _ => id
        exact Triple.bind (Triple.modify fun _ h => h) fun _ => Triple.pure fun _ h => h
  exact hblock r rfl

/-- The occurrence of a worker is that of its step, and accounts for its attempts. -/
theorem Beside.tallies {step : Step} (h : Beside rt call step worker c) (hstep : step ∈ declared)
    (block : Nat) (under : List Nat) (ho : workerOccurrence block under step c = some o) :
    Tallies call declared o := by
  cases h with
  | pending => cases ho
  | running start _ hc =>
    cases c with
    | ret p => exact absurd rfl (hc p)
    | fail e => cases ho
    | act upd next => cases ho
    | pause rest => cases ho
  | done start haccount =>
    cases ho
    exact ⟨hstep, rfl, haccount, nofun⟩
  | raised e => cases ho
  | cancelled => cases ho

theorem notes_block {steps : List Step} (hsteps : ∀ step ∈ steps, step ∈ declared)
    (schedules : Nat → List Move) (under : List Nat) :
    Notes (Tallied (ρ := ρ) (χ := χ) (ν := ν) call declared)
      (noteParallelBlock rt call schedules under steps)
      (runParallelBlock rt call schedules under steps) := by
  refine Notes.noting fun r notes hr => ?_
  have htally : ∀ o ∈ blockOccurrences rt call schedules under steps r,
      Tallies call declared o := by
    intro o ho
    have hwatched := watchWorkers_accompanied rt call steps (schedules r.blocks.length) r.exec
    rw [blockOccurrences] at ho
    obtain ⟨⟨step, c⟩, hmem, hocc⟩ := List.mem_filterMap.mp ho
    obtain ⟨i, hi⟩ := List.mem_iff_getElem?.mp hmem
    obtain ⟨hstep, hc⟩ := List.getElem?_zip_eq_some.mp hi
    have hlt := (List.getElem?_eq_some_iff.mp hstep).1
    rw [← hwatched.workers] at hlt
    have hbeside := hwatched.beside hstep (List.getElem?_eq_getElem hlt) hc
    exact hbeside.tallies (hsteps step (List.mem_of_getElem? hstep)) _ _ hocc
  exact (runParallelBlock_steps rt call schedules under steps r).mono
    (fun _ t ht => hr.append ht htally) fun _ _ => False.elim

/-! ### The body -/

theorem notes_pipeline {steps : List Step} (hsteps : ∀ step ∈ steps, step ∈ declared)
    (under : List Nat) : Notes (Tallied (ρ := ρ) (χ := χ) (ν := ν) call declared)
      (notePipeline rt call under steps) (runPipeline rt call under steps) := by
  induction steps with
  | nil => exact Notes.pure _
  | cons step steps ih =>
    refine (notes_sequential (hsteps step List.mem_cons_self) under).bind fun flow => ?_
    cases flow with
    | stop => exact Notes.pure _
    | next => exact ih fun s hs => hsteps s (List.mem_cons_of_mem step hs)

/-- What the main loop says of guards leaves the records as they are. -/
theorem recordsInvariant (records : List StepRecord) :
    LogInvariant fun r : Run ρ χ ν => r.steps = records := ⟨fun _ _ _ _ h => h⟩

theorem keeps_records_skip {g : GuardNode} {mode : SkipMode} {condition : String}
    {steps : List Step} {rounds : Option Nat} {evaluations : List Evaluation} {evaluation : Nat}
    (records : List StepRecord) : Keeps (fun r : Run ρ χ ν => r.steps = records)
      (skip rt g mode condition steps rounds evaluations evaluation) :=
  Keeps.modify fun _ h => h

theorem keeps_records_nextEvaluation (records : List StepRecord) :
    Keeps (fun r : Run ρ χ ν => r.steps = records) nextEvaluation := by
  refine Keeps.get.bind fun r => Keeps.bind (Keeps.modify ?_) fun _ => Keeps.pure _
  exact fun _ h => h

theorem notes_when (g : GuardNode) (alternatives : List String) (steps : List Step)
    {otherwise : Option ((Nat → L ρ χ ν Flow) × List Step)}
    {notedOtherwise : Option ((Nat → N ρ χ ν Flow) × List Step)}
    (hitem : ∀ n, Notes (Tallied call declared) (noted n) (item n))
    (hother : Option.Rel (fun p q => p.2 = q.2 ∧
      ∀ n, Notes (Tallied call declared) (p.1 n) (q.1 n)) notedOtherwise otherwise) :
    Notes (Tallied call declared) (noteWhen rt call g alternatives noted steps notedOtherwise)
      (runWhen rt call g alternatives item steps otherwise) := by
  refine Notes.bind (notes_unnoted fun _ => LogInvariant.keeps_evaluateGuard g _) fun results => ?_
  refine Notes.bind (notes_unnoted keeps_records_nextEvaluation) fun n => Notes.ite ?_ ?_
  · refine Notes.bind (notes_unnoted fun l => (recordsInvariant l).keeps_logFired) fun _ => ?_
    refine Notes.bind (hitem n) fun flow => ?_
    cases flow with
    | stop => exact Notes.pure _
    | next =>
      cases hother with
      | none => exact Notes.pure _
      | @some p q h =>
        obtain ⟨run, steps⟩ := p
        obtain ⟨run', steps'⟩ := q
        obtain ⟨rfl, -⟩ := h
        exact Notes.bind (notes_unnoted keeps_records_skip) fun _ => Notes.pure _
  · refine Notes.bind (notes_unnoted keeps_records_skip) fun _ => ?_
    refine Notes.bind (notes_unnoted fun l => (recordsInvariant l).keeps_logRun) fun _ => ?_
    cases hother with
    | none => exact Notes.pure _
    | some h => exact h.2 n

theorem notes_untilLoop (g : GuardNode) (deadline : Option Nat) {item : L ρ χ ν Flow}
    {noted : N ρ χ ν Flow} (hitem : Notes (Tallied call declared) noted item) (left : Nat) :
    Notes (Tallied call declared) (noteUntilLoop rt call g deadline noted left)
      (untilLoop rt call g deadline item left) := by
  induction left with
  | zero =>
    refine notes_unnoted fun l => ((recordsInvariant l).keeps_untilEnds g deadline _).bind
      fun ends => Keeps.ite (Keeps.pure _) ?_
    exact (recordsInvariant l).keeps_logRun.bind fun _ => Keeps.pure _
  | succ left ih =>
    refine Notes.bind (notes_unnoted fun l => (recordsInvariant l).keeps_untilEnds g deadline _)
      fun ends => Notes.ite (Notes.pure _) ?_
    refine Notes.bind hitem fun flow => ?_
    cases flow with
    | stop => exact Notes.pure _
    | next => exact ih

theorem notes_until (g : GuardNode) (steps : List Step)
    (hitem : ∀ n, Notes (Tallied call declared) (noted n) (item n)) :
    Notes (Tallied call declared) (noteUntil rt call g noted steps)
      (runUntil rt call g item steps) := by
  refine Notes.bind (notes_unnoted keeps_records_nextEvaluation) fun n => ?_
  refine Notes.bind (notes_unnoted fun _ => Keeps.get) fun r => ?_
  refine Notes.bind (notes_untilLoop g _ (hitem n) _) fun rounds => ?_
  rcases rounds with _ | _ | rounds
  · exact Notes.pure _
  · refine notes_unnoted fun l => (LogInvariant.keeps_evaluateGuard g _).bind fun results => ?_
    refine (keeps_records_skip l).bind fun _ => ?_
    exact (recordsInvariant l).keeps_logRun.bind fun _ => Keeps.pure _
  · exact Notes.pure _

theorem notes_repeat {item : L ρ χ ν Flow} {noted : N ρ χ ν Flow}
    (hitem : Notes (Tallied call declared) noted item) (count : Nat) :
    Notes (Tallied call declared) (noteRepeat noted count) (repeatLoop item count) := by
  induction count with
  | zero => exact Notes.pure _
  | succ count ih =>
    refine Notes.bind hitem fun flow => ?_
    cases flow with
    | stop => exact Notes.pure _
    | next => exact ih

/-- An item notes the steps it executes. -/
theorem notes_item (schedules : Nat → List Move) {item : Item}
    (hsteps : ∀ step ∈ item.steps, step ∈ declared) (under : List Nat) :
    Notes (Tallied (ρ := ρ) (χ := χ) (ν := ν) call declared) (noteItem rt call schedules under item)
      (runItem rt call schedules under item) := by
  induction item generalizing under with
  | step s => exact notes_sequential (hsteps s List.mem_cons_self) under
  | concurrency id steps => exact notes_block hsteps schedules under
  | pipeline id steps => exact notes_pipeline hsteps under
  | «when» g alternatives item ih =>
    exact notes_when g alternatives _ (fun n => ih hsteps (n :: under)) .none
  | whenOtherwise g alternatives item otherwise ih ih' =>
    have hitem := fun step hs => hsteps step (List.mem_append_left _ hs)
    have hother := fun step hs => hsteps step (List.mem_append_right _ hs)
    exact notes_when g alternatives _ (fun n => ih hitem (n :: under))
      (.some ⟨rfl, fun n => ih' hother (n :: under)⟩)
  | «until» g item ih => exact notes_until g _ fun n => ih hsteps (n :: under)
  | «repeat» id count item ih =>
    refine Notes.bind (notes_unnoted fun _ => Keeps.modify fun _ h => h) fun _ => ?_
    exact notes_repeat (ih hsteps under) count

/-- **The body notes the steps it executes.** -/
theorem notes_body (schedules : Nat → List Move) {body : List Item}
    (hsteps : ∀ step ∈ body.flatMap Item.steps, step ∈ declared) :
    Notes (Tallied (ρ := ρ) (χ := χ) (ν := ν) call declared) (noteBody rt call schedules body)
      (runBody rt call schedules body) := by
  induction body with
  | nil => exact Notes.pure _
  | cons item items ih =>
    rw [List.flatMap_cons] at hsteps
    have hitem := fun step hs => hsteps step (List.mem_append_left _ hs)
    have hitems := fun step hs => hsteps step (List.mem_append_right _ hs)
    refine Notes.bind (notes_item schedules hitem []) fun flow => ?_
    cases flow with
    | stop => exact Notes.pure _
    | next => exact ih hitems

/-! ### The run -/

/-- The records are left as they are by whatever happens around the main loop. -/
theorem recordsRunInvariant (records : List StepRecord) :
    RunInvariant fun r : Run ρ χ ν => r.steps = records where
  exec _ _ h := h
  failWith _ _ h := h

theorem tallied_of_runBegun {schedules : Nat → List Move} {begun : Session ρ χ ν}
    (hbegun : begun.run.steps = []) (h : runBegun rt call schedules begun = .ok result t) :
    result.steps = (EStateM.final (noteBody rt call schedules call.workflow.body)
        (begun.run, [])).2.map Occurrence.record ∧
      ∀ o ∈ (EStateM.final (noteBody rt call schedules call.workflow.body) (begun.run, [])).2,
        Tallies call call.workflow.steps o := by
  have hnotes : Notes (Tallied call call.workflow.steps)
      (noteBody rt call schedules call.workflow.body)
      (runBody rt call schedules call.workflow.body) := notes_body schedules fun _ => id
  have hstart : Tallied call call.workflow.steps (begun.run, []) := ⟨hbegun, nofun⟩
  generalize hfinal : EStateM.final (noteBody rt call schedules call.workflow.body)
    (begun.run, []) = noted
  have hbody : Triple (fun r => r = begun.run) (runBody rt call schedules call.workflow.body)
      (fun _ r => r.steps = noted.2.map Occurrence.record ∧
        ∀ o ∈ noted.2, Tallies call call.workflow.steps o) fun _ _ => True := by
    rintro r rfl
    cases hrun : runBody rt call schedules call.workflow.body begun.run with
    | error e r => trivial
    | ok flow r =>
      obtain ⟨hsame, htallied⟩ := hnotes.final_of_ok hstart hrun
      rw [hfinal] at hsame htallied
      rw [← hsame]
      exact ⟨htallied.records, htallied.tallies⟩
  have hI : RunInvariant fun r : Run ρ χ ν => r.steps = noted.2.map Occurrence.record ∧
      ∀ o ∈ noted.2, Tallies call call.workflow.steps o :=
    { exec := fun _ _ h => h
      failWith := fun _ _ h => h }
  have hend := hI.triple_runBegun hI.keeps_termResponse hbody begun rfl
  rw [h] at hend
  obtain ⟨htally, terms, hresult⟩ := hend
  rw [hresult]
  exact htally

/-- **The occurrences of a run carry the records of its result**, in their order. -/
theorem occurrences_tallied (rt : Runtime ρ χ ν) (id : String) (payload : Dict)
    (fill : FillSource → String) (schedules : Nat → List Move) (s : Exec ρ χ ν) {wf : Workflow}
    (hwf : (rt.doc.workflows.find? fun wf => wf.id = id) = some wf)
    (h : runWorkflow rt id payload fill schedules s = .ok result t) :
    result.steps = (occurrences rt wf payload fill schedules s).map Occurrence.record ∧
      ∀ o ∈ occurrences rt wf payload fill schedules s,
        Tallies (startCall rt wf payload fill s.now) wf.steps o := by
  rw [runWorkflow, hwf] at h
  have hlog : onRun (onExec (modify (logStart rt (startCall rt wf payload fill s.now))))
      { run := { exec := s.fresh } } =
      .ok () ({ run := { exec := logStart rt (startCall rt wf payload fill s.now) s.fresh } } :
        Session ρ χ ν) := rfl
  dsimp only at h
  rw [runCall, EStateM.bind_ok hlog] at h
  unfold occurrences
  dsimp only
  have hkeeps : Keeps (fun s : Session ρ χ ν => s.run.steps = []) (boundary rt .begin) :=
    (recordsRunInvariant []).keeps_boundary .begin
  have hsteps := hkeeps
    { run := { exec := logStart rt (startCall rt wf payload fill s.now) s.fresh } } rfl
  cases hbegin : boundary rt .begin
      { run := { exec := logStart rt (startCall rt wf payload fill s.now) s.fresh } } with
  | error e begun =>
    rw [EStateM.bind_error hbegin] at h
    cases h
  | ok u begun =>
    rw [EStateM.bind_ok hbegin] at h
    rw [hbegin] at hsteps
    exact tallied_of_runBegun hsteps h

/-- A step of the main loop is clear where it begins before the deadline. -/
theorem Tallies.clear_iff (h : Tallies call declared o) (hblock : o.record.block = none) :
    Clear call o ↔ ∀ b ∈ o.history.head?, b.late call = false := by
  have hfurther := h.alone hblock
  obtain ⟨step, record, history⟩ := o
  constructor
  · intro hclear b hb
    exact hclear.inTime b (List.mem_of_mem_head? hb)
  · intro hhead
    refine ⟨fun b hb => ?_, fun b hb => (hfurther b hb).2⟩
    cases history with
    | nil => cases hb
    | cons first rest =>
      rcases List.mem_cons.mp hb with rfl | hrest
      · exact hhead b rfl
      · exact (hfurther b hrest).1

/-- **The attempts a record counts.**  The records of a run are those of its occurrences.  Each
counts the starts of its effects within its bounds, and begins no retry late, exactly where none of
its attempts begins late and none of its retries finds `cancel_event` set; in the main loop, exactly
where its first attempt begins before the deadline. -/
theorem attempts_counted_iff (rt : Runtime ρ χ ν) (id : String) (payload : Dict)
    (fill : FillSource → String) (schedules : Nat → List Move) (s : Exec ρ χ ν) (wf : Workflow)
    (hwf : (rt.doc.workflows.find? fun wf => wf.id = id) = some wf) (result : Result)
    (t : Session ρ χ ν) (h : runWorkflow rt id payload fill schedules s = .ok result t) :
    result.steps = (occurrences rt wf payload fill schedules s).map Occurrence.record ∧
      ∀ o ∈ occurrences rt wf payload fill schedules s,
        (o.step ∈ wf.steps ∧ o.record.stepId = o.step.id) ∧
          (Counted (startCall rt wf payload fill s.now) o ↔
            Clear (startCall rt wf payload fill s.now) o) ∧
          (o.record.block = none → (Clear (startCall rt wf payload fill s.now) o ↔
            ∀ b ∈ o.history.head?, b.late (startCall rt wf payload fill s.now) = false)) := by
  obtain ⟨hrecords, htallies⟩ := occurrences_tallied rt id payload fill schedules s hwf h
  refine ⟨hrecords, fun o ho => ?_⟩
  have htally := htallies o ho
  exact ⟨⟨htally.declared, htally.record⟩, htally.account.counted_iff, htally.clear_iff⟩

/-! ### A cancelled retry -/

/-- A block of a step that may be run again and one that may not, both of which fail. -/
def cancelWorkflow : Workflow where
  id := "w"
  name := "reserve"
  body := [.concurrency "w.parallel.1"
    [⟨"w.step.1", "Set Status", [.assignment "w.step.1.e1" "order" "status" "1" none]⟩,
      ⟨"w.step.2", "Give Up", [.rejection "w.step.2.e1" "rejected"]⟩]]
  constraints := { retry := 1 }
  distinct := by decide

/-- The first step fails and waits for its retry, the second one fails, the block is cancelled. -/
def cancelMoves : List Move :=
  List.replicate 4 (.run 0) ++ List.replicate 5 (.run 1) ++ [.signal]

def cancelRun : EStateM.Result Exc (Session Unit Unit Unit) Result :=
  runWorkflow (Runtime.plain cancelWorkflow (.silent [])) "w" ∅ (fun _ => "")
    (fun _ => cancelMoves) .plain

/-- The steps of that run. -/
def cancelOccurrences : List Occurrence :=
  occurrences (Runtime.plain cancelWorkflow (.silent [])) cancelWorkflow ∅ (fun _ => "")
    (fun _ => cancelMoves) .plain

theorem cancelOccurrences_eq :
    (cancelOccurrences.map fun o => (o.record.attempts, o.history)) =
      [(2, [⟨0, false, true⟩, ⟨100, true, false⟩]), (1, [⟨100, false, true⟩])] := by
  decide +kernel

/-- What the law says of that run. -/
theorem cancelRun_counted_iff : ∃ result t, cancelRun = .ok result t ∧
    result.steps = cancelOccurrences.map Occurrence.record ∧
      ∀ o ∈ cancelOccurrences,
        (Counted (startCall (Runtime.plain cancelWorkflow (.silent [])) cancelWorkflow ∅
            (fun _ => "") 0) o ↔
          Clear (startCall (Runtime.plain cancelWorkflow (.silent [])) cancelWorkflow ∅
            (fun _ => "") 0) o) := by
  have hlaw := attempts_counted_iff (Runtime.plain cancelWorkflow (.silent [])) "w" ∅ (fun _ => "")
    (fun _ => cancelMoves) .plain cancelWorkflow rfl _ _ rfl
  exact ⟨_, _, rfl, hlaw.1, fun o ho => (hlaw.2 o ho).2.1⟩

/-- **A cancelled retry is counted.**  The first step of the block has a record of two attempts, and
its effects were started once. -/
theorem cancelled_retry_not_counted : (∃ result t, cancelRun = .ok result t) ∧
    ¬ ∀ o ∈ cancelOccurrences,
      Counted (startCall (Runtime.plain cancelWorkflow (.silent [])) cancelWorkflow ∅
        (fun _ => "") 0) o := by
  refine ⟨⟨_, _, rfl⟩, fun hall => ?_⟩
  have hmem : (2, [⟨0, false, true⟩, ⟨100, true, false⟩]) ∈
      cancelOccurrences.map fun o => (o.record.attempts, o.history) := by
    rw [cancelOccurrences_eq]
    exact List.mem_cons_self
  obtain ⟨o, ho, heq⟩ := List.mem_map.mp hmem
  obtain ⟨hattempts, hhistory⟩ := Prod.mk.inj heq
  have hstarts := (hall o ho).starts
  rw [hattempts, hhistory] at hstarts
  exact absurd hstarts (by decide)

end Lnpl.Interp
