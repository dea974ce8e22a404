import Lnpl.Drivers.KeepAlive

/-!
# One request an attempt

A thread keeps a connection to an origin iff its last request there was answered, so an attempt
sends its request twice iff that request follows an answered one and fails.
-/

namespace Lnpl.Drivers

open Lib (Throughout throughout_iff)

/-! ### The attempts of a call -/

section

variable {β ε σ : Type} {parseInt : String → Option Int} {uniform : Nat → ℚ → ℚ}
  {retry : Option Retry} {attemptFn : σ → Attempt β ε × σ}

theorem attemptLoop_zero (attempt : Nat) (s : σ) :
    (attemptLoop parseInt uniform retry attemptFn 0 attempt s).2.2 = (attemptFn s).2 := by
  unfold attemptLoop
  obtain ⟨outcome, s'⟩ := attemptFn s
  cases outcome with
  | reply r =>
    dsimp only
    cases isRetryableStatus r.status with
    | true => rfl
    | false => rfl
  | driverError message => rfl
  | raised e => rfl

theorem attemptLoop_succ (left attempt : Nat) (s : σ) :
    (attemptLoop parseInt uniform retry attemptFn (left + 1) attempt s).2.2 =
      if (attemptFn s).1.retried then
        (attemptLoop parseInt uniform retry attemptFn left (attempt + 1) (attemptFn s).2).2.2
      else (attemptFn s).2 := by
  conv_lhs => unfold attemptLoop
  obtain ⟨outcome, s'⟩ := attemptFn s
  cases outcome with
  | reply r =>
    show _ = if isRetryableStatus r.status = true then _ else _
    cases hretry : isRetryableStatus r.status with
    | true =>
      dsimp only
      rw [hretry]
      rfl
    | false =>
      dsimp only
      rw [hretry]
      rfl
  | driverError message => rfl
  | raised e => rfl

theorem mem_attemptStarts (left : Nat) (s : σ) : s ∈ attemptStarts attemptFn left s := by
  cases left with
  | zero => exact List.mem_singleton_self s
  | succ left => exact List.mem_cons_self

/-- What an attempt grows by one at most, a call grows by the number of its attempts at most. -/
theorem attemptLoop_le {f : σ → Nat} (left : Nat) :
    ∀ (attempt : Nat) (s : σ),
      (∀ s' ∈ attemptStarts attemptFn left s, f (attemptFn s').2 ≤ f s' + 1) →
      f (attemptLoop parseInt uniform retry attemptFn left attempt s).2.2 ≤ f s + (left + 1) := by
  induction left with
  | zero =>
    intro attempt s h
    rw [attemptLoop_zero]
    exact h s (mem_attemptStarts 0 s)
  | succ left ih =>
    intro attempt s h
    have hfirst : f (attemptFn s).2 ≤ f s + 1 := h s (mem_attemptStarts _ s)
    rw [attemptLoop_succ]
    cases hretried : (attemptFn s).1.retried with
    | true =>
      rw [if_pos rfl]
      have hrest := ih (attempt + 1) (attemptFn s).2 ?_
      · omega
      · intro s' hs'
        apply h s'
        unfold attemptStarts
        rw [if_pos hretried]
        exact .tail _ hs'
    | false =>
      rw [if_neg Bool.false_ne_true]
      omega

/-- What every attempt keeps holds in front of each and after the call. -/
theorem attemptLoop_invariant {I : σ → Prop} (hkeep : ∀ s, I s → I (attemptFn s).2) (left : Nat) :
    ∀ (attempt : Nat) (s : σ), I s →
      (∀ s' ∈ attemptStarts attemptFn left s, I s') ∧
        I (attemptLoop parseInt uniform retry attemptFn left attempt s).2.2 := by
  induction left with
  | zero =>
    intro attempt s hs
    rw [attemptLoop_zero]
    refine ⟨?_, hkeep s hs⟩
    intro s' hs'
    rw [List.mem_singleton.mp hs']
    exact hs
  | succ left ih =>
    intro attempt s hs
    obtain ⟨hstarts, hend⟩ := ih (attempt + 1) (attemptFn s).2 (hkeep s hs)
    rw [attemptLoop_succ]
    unfold attemptStarts
    cases (attemptFn s).1.retried with
    | true =>
      rw [if_pos rfl, if_pos rfl]
      exact ⟨List.forall_mem_cons.mpr ⟨hs, hstarts⟩, hend⟩
    | false =>
      rw [if_neg Bool.false_ne_true, if_neg Bool.false_ne_true]
      refine ⟨?_, hkeep s hs⟩
      intro s' hs'
      rw [List.mem_singleton.mp hs']
      exact hs

end

/-! ### One attempt -/

variable {β ε : Type} {wire : Nat → Exchange β ε} {origin : Origin} {s : Client β ε}

/-- The thread keeps the connections whose last request was answered. -/
def Client.Kept (s : Client β ε) : Prop :=
  ∀ origin, origin ∈ s.connections ↔ alive origin s.log = true

theorem kept_start : ({} : Client β ε).Kept := by
  intro origin
  exact iff_of_false List.not_mem_nil Bool.false_ne_true

/-- The exchange that an attempt starts with. -/
def Client.sent (s : Client β ε) (wire : Nat → Exchange β ε) (origin : Origin) : Client β ε :=
  { s with log := (origin, wire s.log.length) :: s.log }

theorem alive_cons_self (x : Exchange β ε) (log : List (Origin × Exchange β ε)) :
    alive origin ((origin, x) :: log) =
      match x.outcome with
      | .answered _ => true
      | .failed _ => false
      | .raised _ => alive origin log :=
  if_pos rfl

theorem alive_cons_of_ne {o : Origin} (h : o ≠ origin) (x : Exchange β ε)
    (log : List (Origin × Exchange β ε)) : alive origin ((o, x) :: log) = alive origin log :=
  if_neg h

theorem kept_keep (h : s.Kept) {r : Reply β} (hwire : (wire s.log.length).outcome = .answered r) :
    ((s.sent wire origin).keep origin).Kept := by
  intro o
  show o ∈ s.connections.insert origin ↔ alive o ((origin, wire s.log.length) :: s.log) = true
  rw [List.mem_insert_iff]
  by_cases ho : o = origin
  · rw [ho, alive_cons_self, hwire]
    exact iff_of_true (.inl rfl) rfl
  · rw [alive_cons_of_ne (Ne.symm ho), ← h o]
    exact or_iff_right ho

theorem kept_drop (h : s.Kept) {message : String}
    (hwire : (wire s.log.length).outcome = .failed message) :
    ((s.sent wire origin).drop origin).Kept := by
  intro o
  show o ∈ s.connections.filter (· ≠ origin) ↔
    alive o ((origin, wire s.log.length) :: s.log) = true
  rw [List.mem_filter, decide_eq_true_iff]
  by_cases ho : o = origin
  · rw [ho, alive_cons_self, hwire]
    exact iff_of_false (fun hmem => hmem.2 rfl) Bool.false_ne_true
  · rw [alive_cons_of_ne (Ne.symm ho), ← h o]
    exact and_iff_left ho

theorem kept_raised (h : s.Kept) {e : ε} (hwire : (wire s.log.length).outcome = .raised e) :
    (s.sent wire origin).Kept := by
  intro o
  show o ∈ s.connections ↔ alive o ((origin, wire s.log.length) :: s.log) = true
  by_cases ho : o = origin
  · rw [ho, alive_cons_self, hwire]
    exact h origin
  · rw [alive_cons_of_ne (Ne.symm ho)]
    exact h o

theorem kept_failed (h : s.Kept) (hnew : origin ∉ s.connections) {message : String}
    (hwire : (wire s.log.length).outcome = .failed message) : (s.sent wire origin).Kept := by
  intro o
  show o ∈ s.connections ↔ alive o ((origin, wire s.log.length) :: s.log) = true
  by_cases ho : o = origin
  · rw [ho, alive_cons_self, hwire]
    exact iff_of_false hnew Bool.false_ne_true
  · rw [alive_cons_of_ne (Ne.symm ho)]
    exact h o

/-- What an attempt does: one exchange, or on a kept connection that fails two. -/
theorem oneHttpAttempt_cases (wire : Nat → Exchange β ε) (origin : Origin) (s : Client β ε) :
    (∃ r, (wire s.log.length).outcome = .answered r ∧
      oneHttpAttempt wire origin s = (.reply r, (s.sent wire origin).keep origin)) ∨
    (∃ e, (wire s.log.length).outcome = .raised e ∧
      oneHttpAttempt wire origin s = (.raised e, s.sent wire origin)) ∨
    (∃ message, (wire s.log.length).outcome = .failed message ∧ origin ∉ s.connections ∧
      oneHttpAttempt wire origin s = (.driverError message, (s.sent wire origin).drop origin)) ∨
    (∃ message, (wire s.log.length).outcome = .failed message ∧ origin ∈ s.connections ∧
      ((∃ r, (wire (s.log.length + 1)).outcome = .answered r ∧ oneHttpAttempt wire origin s =
        (.reply r, (((s.sent wire origin).drop origin).sent wire origin).keep origin)) ∨
      (∃ e, (wire (s.log.length + 1)).outcome = .raised e ∧ oneHttpAttempt wire origin s =
        (.raised e, ((s.sent wire origin).drop origin).sent wire origin)) ∨
      (∃ message, (wire (s.log.length + 1)).outcome = .failed message ∧
        oneHttpAttempt wire origin s =
          (.driverError message, ((s.sent wire origin).drop origin).sent wire origin)))) := by
  unfold oneHttpAttempt Client.sendAndRead
  dsimp only
  cases hfirst : (wire s.log.length).outcome with
  | answered r => exact .inl ⟨r, rfl, rfl⟩
  | raised e => exact .inr (.inl ⟨e, rfl, rfl⟩)
  | failed message =>
    by_cases hreused : origin ∈ s.connections
    · refine .inr (.inr (.inr ⟨message, rfl, hreused, ?_⟩))
      rw [decide_eq_true hreused]
      show _ ∨ _
      have hlength : (Client.drop { s with log := (origin, wire s.log.length) :: s.log }
          origin).log.length = s.log.length + 1 := rfl
      simp only [hlength]
      cases hsecond : (wire (s.log.length + 1)).outcome with
      | answered r => exact .inl ⟨r, rfl, rfl⟩
      | raised e => exact .inr (.inl ⟨e, rfl, rfl⟩)
      | failed message => exact .inr (.inr ⟨message, rfl, rfl⟩)
    · refine .inr (.inr (.inl ⟨message, rfl, hreused, ?_⟩))
      rw [decide_eq_false hreused]
      rfl

/-- An attempt leaves the kept connections in step with the log. -/
theorem kept_oneHttpAttempt (h : s.Kept) : (oneHttpAttempt wire origin s).2.Kept := by
  obtain ⟨r, hfirst, hattempt⟩ | ⟨e, hfirst, hattempt⟩ | ⟨message, hfirst, -, hattempt⟩ |
    ⟨message, hfirst, -, hsecond⟩ := oneHttpAttempt_cases wire origin s
  · rw [hattempt]
    exact kept_keep h hfirst
  · rw [hattempt]
    exact kept_raised h hfirst
  · rw [hattempt]
    exact kept_drop h hfirst
  · have hdropped : ((s.sent wire origin).drop origin).Kept := kept_drop h hfirst
    obtain ⟨r, hsecond, hattempt⟩ | ⟨e, hsecond, hattempt⟩ | ⟨message, hsecond, hattempt⟩ :=
      hsecond
    · rw [hattempt]
      exact kept_keep hdropped hsecond
    · rw [hattempt]
      exact kept_raised hdropped hsecond
    · rw [hattempt]
      refine kept_failed hdropped ?_ hsecond
      intro hmem
      have hne := (List.mem_filter.mp hmem).2
      exact of_decide_eq_true hne rfl

theorem received_cons (origin : Origin) (x : Exchange β ε) (log : List (Origin × Exchange β ε)) :
    received ((origin, x) :: log) = received log + if x.received = true then 1 else 0 :=
  List.countP_cons

/-- **One attempt** is received completely at most once iff no request is lost after its receipt on
a connection that was alive. -/
theorem received_oneHttpAttempt_iff (h : s.Kept) :
    received (oneHttpAttempt wire origin s).2.log ≤ received s.log + 1 ↔
      ¬LostAfterReceipt wire origin s.log := by
  have hone := received_cons origin (wire s.log.length) s.log
  have htwo := received_cons origin (wire (s.log.length + 1))
    ((origin, wire s.log.length) :: s.log)
  have hshort (hlog : (oneHttpAttempt wire origin s).2.log =
      (origin, wire s.log.length) :: s.log) (hlost : ¬LostAfterReceipt wire origin s.log) :
      received (oneHttpAttempt wire origin s).2.log ≤ received s.log + 1 ↔
        ¬LostAfterReceipt wire origin s.log := by
    rw [hlog, hone]
    exact iff_of_true (by split <;> omega) hlost
  obtain ⟨r, hfirst, hattempt⟩ | ⟨e, hfirst, hattempt⟩ | ⟨message, hfirst, hnew, hattempt⟩ |
    ⟨message, hfirst, hreused, hsecond⟩ := oneHttpAttempt_cases wire origin s
  · refine hshort (by rw [hattempt]; rfl) ?_
    rintro ⟨-, -, ⟨message, hfailed⟩, -⟩
    rw [hfirst] at hfailed
    cases hfailed
  · refine hshort (by rw [hattempt]; rfl) ?_
    rintro ⟨-, -, ⟨message, hfailed⟩, -⟩
    rw [hfirst] at hfailed
    cases hfailed
  · refine hshort (by rw [hattempt]; rfl) ?_
    rintro ⟨halive, -⟩
    exact hnew ((h origin).mpr halive)
  · have hlog : (oneHttpAttempt wire origin s).2.log =
        (origin, wire (s.log.length + 1)) :: (origin, wire s.log.length) :: s.log := by
      obtain ⟨r, -, hattempt⟩ | ⟨e, -, hattempt⟩ | ⟨message, -, hattempt⟩ := hsecond
      · rw [hattempt]
        rfl
      · rw [hattempt]
        rfl
      · rw [hattempt]
        rfl
    have halive : alive origin s.log = true := (h origin).mp hreused
    rw [hlog, htwo, hone]
    unfold LostAfterReceipt
    rw [hfirst]
    cases (wire s.log.length).received with
    | false =>
      refine iff_of_true ?_ fun hlost => absurd hlost.2.1 Bool.false_ne_true
      rw [if_neg Bool.false_ne_true]
      split <;> omega
    | true =>
      cases (wire (s.log.length + 1)).received with
      | false =>
        refine iff_of_true ?_ fun hlost => absurd hlost.2.2.2 Bool.false_ne_true
        rw [if_pos rfl, if_neg Bool.false_ne_true]
      | true =>
        refine iff_of_false ?_ fun hlost => hlost ⟨halive, rfl, ⟨message, rfl⟩, rfl⟩
        rw [if_pos rfl]
        omega

/-! ### Calls -/

variable {parseInt : String → Option Int} {uniform : Nat → ℚ → ℚ} {c : NetworkCall}

/-- In front of the attempts of a call, and after it, the thread keeps the connections whose last
request was answered. -/
theorem kept_call (h : s.Kept) :
    (∀ s' ∈ c.starts wire s, s'.Kept) ∧ (s.step parseInt uniform wire c).Kept := by
  unfold Client.step NetworkCall.starts NetworkCall.call
  cases c.refusal with
  | some message => exact ⟨fun s' hs' => absurd hs' List.not_mem_nil, h⟩
  | none =>
    exact attemptLoop_invariant (fun _ hs => kept_oneHttpAttempt hs) (Capability.retries c.cap) 1 s
      h

/-- If each attempt is received once at most, so is the call for each of its attempts. -/
theorem received_call_le (h : ∀ s' ∈ c.starts wire s,
      received (oneHttpAttempt wire c.origin s').2.log ≤ received s'.log + 1) :
    received (s.step parseInt uniform wire c).log ≤
      received s.log + (Capability.retries c.cap + 1) := by
  unfold NetworkCall.starts at h
  unfold Client.step NetworkCall.call
  cases hrefusal : c.refusal with
  | some message => exact Nat.le_add_right _ _
  | none =>
    rw [hrefusal] at h
    exact attemptLoop_le (f := fun s => received s.log) (Capability.retries c.cap) 1 s h

theorem sentOnce_iff (h : s.Kept) (c : NetworkCall) :
    s.SentOnce parseInt uniform wire c ↔ s.NothingLost wire c := by
  have hstarts : (∀ s' ∈ c.starts wire s, s'.Kept) ∧ (s.step parseInt uniform wire c).Kept :=
    kept_call h
  constructor
  · intro honce s' hs'
    exact (received_oneHttpAttempt_iff (hstarts.1 s' hs')).mp (honce.1 s' hs')
  · intro hlost
    have hattempts : ∀ s' ∈ c.starts wire s,
        received (oneHttpAttempt wire c.origin s').2.log ≤ received s'.log + 1 := by
      intro s' hs'
      exact (received_oneHttpAttempt_iff (hstarts.1 s' hs')).mpr (hlost s' hs')
    exact ⟨hattempts, received_call_le hattempts⟩

/-- **Transmissions of a thread's calls.**  In every sequence of calls, each is received as often as
it declares at most iff none loses a request after its receipt on a connection that was alive. -/
theorem sentOnce_run_iff (parseInt : String → Option Int) (uniform : Nat → ℚ → ℚ)
    (wire : Nat → Exchange β ε) (calls : List NetworkCall) :
    Throughout (Client.step parseInt uniform wire) (Client.SentOnce parseInt uniform wire) {} calls ↔
      Throughout (Client.step parseInt uniform wire) (Client.NothingLost wire) {} calls := by
  have hgood (s : Client β ε) (c : NetworkCall) (h : s.Kept) :
      s.SentOnce parseInt uniform wire c ↔ s.NothingLost wire c := sentOnce_iff h c
  have hkeep (s : Client β ε) (c : NetworkCall) (h : s.Kept) (_ : s.NothingLost wire c) :
      (s.step parseInt uniform wire c).Kept := (kept_call h).2
  exact throughout_iff hgood hkeep calls {} kept_start

/-- A peer that answers, then takes a request without an answer in time, then answers. -/
def slowPeer : Nat → Exchange Unit Unit
  | 1 => ⟨true, .failed "timed out"⟩
  | _ => ⟨true, .answered ⟨200, (), []⟩⟩

/-- Two calls without a retry to one origin. -/
def payTwice : List NetworkCall :=
  [{ origin := ⟨"http", "pay", none⟩ }, { origin := ⟨"http", "pay", none⟩ }]

/-- The second call is received twice. -/
theorem not_sentOnce_slowPeer :
    ¬Throughout (Client.step (fun _ => none) (fun _ delay => delay) slowPeer)
      (Client.SentOnce (fun _ => none) (fun _ delay => delay) slowPeer) {} payTwice := by
  intro honce
  obtain ⟨-, hcall⟩ := honce (payTwice.take 1) { origin := ⟨"http", "pay", none⟩ } [] rfl
  exact absurd hcall (by decide)

end Lnpl.Drivers
