import Lnpl.Drivers.Resilience
import Lnpl.Lib.Runs

/-!
# Threads that share a breaker

The calls of a target, in any number of threads, as steps of one machine: a call looks its breaker
up, makes one where there is none, asks it, and tells it the outcome of its attempts.  Beside the
breakers runs the law that a circuit breaker is to keep.
-/

namespace Lnpl.Drivers


/-! ### The law -/

/-- How a circuit stands: closed, with the failures since the last success; open since a time; or
half-open, while one call probes. -/
inductive Standing (ρ : Type) where
  | closed (failures : Nat)
  | opened (since : ℚ)
  | probing (probe : ρ)
  deriving DecidableEq

variable {ρ : Type} [DecidableEq ρ]

/-- A call is rejected while the window of an opening has not elapsed and while a probe is
unresolved. -/
def Standing.rejects (windowMs : ℚ) (now : ℚ) : Standing ρ → Bool
  | .closed _ => false
  | .opened since => now - since < windowMs
  | .probing _ => true

/-- The first call after the window probes. -/
def Standing.asked (windowMs : ℚ) (c : ρ) (now : ℚ) : Standing ρ → Standing ρ
  | .opened since => if now - since < windowMs then .opened since else .probing c
  | s => s

/-- A closed circuit counts every outcome, a half-open one that of its probe. -/
def Standing.told (threshold : Nat) (c : ρ) (now : ℚ) (success : Bool) : Standing ρ → Standing ρ
  | .closed failures =>
    if success then .closed 0
    else if failures + 1 ≥ threshold then .opened now else .closed (failures + 1)
  | .opened since => .opened since
  | .probing probe =>
    if probe = c then if success then .closed 0 else .opened now else .probing probe

/-- The outcomes that change the law's mind as they change the breaker's: all of a closed circuit,
that of a probe, and a failure at the very moment of the opening. -/
def Standing.Counts (c : ρ) (now : ℚ) (success : Bool) : Standing ρ → Prop
  | .closed _ => True
  | .opened since => now = since ∧ success = false
  | .probing probe => probe = c

/-! ### The machine -/

/-- Where a call is: in front of the look-up, having found no breaker, holding one, and once that
answered, admitted by it, or at its end; an end knows how many outcomes were recorded. -/
inductive Phase where
  | idle
  | missed
  | holding (breaker : Nat)
  | rejected
  | admitted (breaker : Nat)
  | ended (recorded : Nat)
  deriving DecidableEq

/-- The breakers that were made, `breakers[target]`, the calls, and the law. -/
structure Circuit (ρ : Type) where
  made : List Breaker := []
  entry : Option Nat := none
  phase : ρ → Phase := fun _ => .idle
  clock : ℚ
  standing : Standing ρ := .closed 0

/-- The steps of a call: the look-up, the making of a breaker, `allow`, and the attempts with what
is recorded of them. -/
inductive Move (ρ β ε : Type) where
  | lookUp (c : ρ)
  | make (c : ρ)
  | allow (c : ρ) (now : ℚ)
  | finish (c : ρ) (attempts : Nat → Attempt β ε) (now : ℚ)

variable {β ε : Type}

/-- The ending of a call whose attempts end one after the other as given. -/
def endingOf (parseInt : String → Option Int) (uniform : Nat → ℚ → ℚ) (cap : Capability)
    (attempts : Nat → Attempt β ε) : Ending β ε :=
  (attemptLoop parseInt uniform cap.retry (fun s : Nat → Attempt β ε => (s 0, fun n => s (n + 1)))
    (Capability.retries (some cap)) 1 attempts).1

/-- The step is the next one of its call, and its time is not in the past. -/
def Move.enabled (s : Circuit ρ) : Move ρ β ε → Prop
  | .lookUp c => s.phase c = .idle
  | .make c => s.phase c = .missed
  | .allow c now => (∃ i, s.phase c = .holding i) ∧ s.clock ≤ now
  | .finish c _ now => (∃ i, s.phase c = .admitted i) ∧ s.clock ≤ now

def Circuit.setPhase (s : Circuit ρ) (c : ρ) (p : Phase) : Circuit ρ :=
  { s with phase := Function.update s.phase c p }

section

variable (parseInt : String → Option Int) (uniform : Nat → ℚ → ℚ) (cap : Capability)
  (config : BreakerConfig)

/-- One step; what is not enabled does not happen. -/
def Circuit.step (s : Circuit ρ) : Move ρ β ε → Circuit ρ
  | .lookUp c =>
    if s.phase c = .idle then
      match s.entry with
      | some i => s.setPhase c (.holding i)
      | none => s.setPhase c .missed
    else s
  | .make c =>
    if s.phase c = .missed then
      { s.setPhase c (.holding s.made.length) with
        made := s.made ++ [Breaker.new config]
        entry := some s.made.length }
    else s
  | .allow c now =>
    match s.phase c with
    | .holding i =>
      match s.made[i]? with
      | some b =>
        if s.clock ≤ now then
          let answer := b.allow now
          { s.setPhase c (if answer.1 then .admitted i else .rejected) with
            made := s.made.set i answer.2
            clock := now
            standing := s.standing.asked config.windowMs c now }
        else s
      | none => s
    | _ => s
  | .finish c attempts now =>
    match s.phase c with
    | .admitted i =>
      match s.made[i]? with
      | some b =>
        if s.clock ≤ now then
          let outcome := (endingOf parseInt uniform cap attempts).recorded
          { s.setPhase c (.ended outcome.toList.length) with
            made := s.made.set i (b.record outcome now)
            clock := now
            standing := s.standing.told config.threshold c now (outcome = some true) }
        else s
      | none => s
    | _ => s

/-- The fields of a breaker say how the circuit stands. -/
def Breaker.Tells (b : Breaker) : Standing ρ → Prop
  | .closed failures => b.openedAt = none ∧ b.halfOpen = false ∧ b.consecutiveFailures = failures
  | .opened since => b.openedAt = some since ∧ b.halfOpen = false
  | .probing _ => b.openedAt.isSome ∧ b.halfOpen = true

/-- The breaker of the target tells how the circuit stands; a target without one is closed. -/
def Circuit.Agrees (s : Circuit ρ) : Prop :=
  match s.entry with
  | some i => ∃ b, s.made[i]? = some b ∧ b.Tells s.standing
  | none => s.standing = .closed 0

/-- What a step owes: one breaker for the target; a rejection iff the law rejects; one outcome for
each call that was admitted; and a breaker that tells how the circuit stands afterwards. -/
def Circuit.Lawful (s : Circuit ρ) (m : Move ρ β ε) : Prop :=
  m.enabled s → (s.step parseInt uniform cap config m).Agrees ∧
    match m with
    | .lookUp _ => True
    | .make _ => s.entry = none
    | .allow c now =>
      (s.step parseInt uniform cap config m).phase c = .rejected ↔
        s.standing.rejects config.windowMs now = true
    | .finish c _ _ => (s.step parseInt uniform cap config m).phase c = .ended 1

/-- No breaker is made twice, nothing is asked while a probe is unresolved, no outcome comes from
before an opening, save a failure at its very moment, and every call ends in a reply or in a
`DriverError`. -/
def Circuit.Orderly (s : Circuit ρ) (m : Move ρ β ε) : Prop :=
  m.enabled s →
    match m with
    | .lookUp _ => True
    | .make _ => s.entry = none
    | .allow _ _ => ∀ probe, s.standing ≠ .probing probe
    | .finish c attempts now =>
      ∃ success, (endingOf parseInt uniform cap attempts).recorded = some success ∧
        s.standing.Counts c now success

end

end Lnpl.Drivers
