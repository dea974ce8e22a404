import Lnpl.Lib.Credit
import Lnpl.Serve.TokenBucket

/-!
# What a token bucket owes its callers

The tokens are a balance that refills, so that the window bound is the one of such balances.  The
seconds of `Retry-After` bring the deficit in, but not above the capacity: a bucket that holds less
than one token never admits a call.
-/

namespace Lnpl.Serve

open Lnpl.Lib.Credit (Entry Follows Ledger grantedIn grantedIn_le)

variable {b : TokenBucket} {now : ℚ} {limit : RateLimit}

/-! ### One call -/

@[simp] theorem TokenBucket.refill_last (b : TokenBucket) (now : ℚ) : (b.refill now).last = now := by
  unfold refill
  dsimp only
  split_ifs <;> rfl

@[simp] theorem TokenBucket.refill_rate (b : TokenBucket) (now : ℚ) :
    (b.refill now).rate = b.rate := by
  unfold refill
  dsimp only
  split_ifs <;> rfl

@[simp] theorem TokenBucket.refill_capacity (b : TokenBucket) (now : ℚ) :
    (b.refill now).capacity = b.capacity := by
  unfold refill
  dsimp only
  split_ifs <;> rfl

/-- A bucket that a limiter can be. -/
structure TokenBucket.Sound (b : TokenBucket) : Prop where
  rate : 0 < b.rate
  tokens : 0 ≤ b.tokens
  capped : b.tokens ≤ b.capacity

theorem TokenBucket.refill_tokens (h : b.Sound) (hnow : b.last ≤ now) :
    (b.refill now).tokens = min b.capacity (b.tokens + (now - b.last) * b.rate) := by
  unfold refill
  dsimp only
  split_ifs with helapsed
  · rfl
  · have heq : now - b.last = 0 := le_antisymm (not_lt.mp helapsed) (sub_nonneg.mpr hnow)
    rw [heq, zero_mul, add_zero, min_eq_right h.capped]

theorem TokenBucket.Sound.refill (h : b.Sound) (hnow : b.last ≤ now) : (b.refill now).Sound := by
  have hgrowth : 0 ≤ (now - b.last) * b.rate := mul_nonneg (sub_nonneg.mpr hnow) h.rate.le
  constructor
  · rw [refill_rate]
    exact h.rate
  · rw [refill_tokens h hnow]
    exact le_min (h.tokens.trans h.capped) (add_nonneg h.tokens hgrowth)
  · rw [refill_tokens h hnow, refill_capacity]
    exact min_le_left _ _

/-- What a call can do. -/
theorem TokenBucket.acquire_cases (b : TokenBucket) (now : ℚ) :
    (1 ≤ (b.refill now).tokens ∧ (b.acquire now).1 = none ∧
      (b.acquire now).2 = { b.refill now with tokens := (b.refill now).tokens - 1 }) ∨
    ((b.refill now).tokens < 1 ∧
      (b.acquire now).1 = some (max 1 ⌈(1 - (b.refill now).tokens) / (b.refill now).rate⌉) ∧
      (b.acquire now).2 = b.refill now) := by
  unfold acquire
  dsimp only
  by_cases h : (b.refill now).tokens ≥ 1
  · rw [if_pos h]
    exact .inl ⟨h, rfl, rfl⟩
  · rw [if_neg h]
    exact .inr ⟨not_le.mp h, rfl, rfl⟩

@[simp] theorem TokenBucket.acquire_last (b : TokenBucket) (now : ℚ) :
    (b.acquire now).2.last = now := by
  obtain ⟨-, -, h⟩ | ⟨-, -, h⟩ := b.acquire_cases now <;> simp [h]

@[simp] theorem TokenBucket.acquire_rate (b : TokenBucket) (now : ℚ) :
    (b.acquire now).2.rate = b.rate := by
  obtain ⟨-, -, h⟩ | ⟨-, -, h⟩ := b.acquire_cases now <;> simp [h]

@[simp] theorem TokenBucket.acquire_capacity (b : TokenBucket) (now : ℚ) :
    (b.acquire now).2.capacity = b.capacity := by
  obtain ⟨-, -, h⟩ | ⟨-, -, h⟩ := b.acquire_cases now <;> simp [h]

theorem TokenBucket.acquire_eq_none_iff (b : TokenBucket) (now : ℚ) :
    (b.acquire now).1 = none ↔ 1 ≤ (b.refill now).tokens := by
  obtain ⟨h, hanswer, -⟩ | ⟨h, hanswer, -⟩ := b.acquire_cases now
  · simp [hanswer, h]
  · simp [hanswer, h]

theorem TokenBucket.Sound.acquire (h : b.Sound) (hnow : b.last ≤ now) :
    (b.acquire now).2.Sound := by
  have hrefilled := h.refill hnow
  obtain ⟨hone, -, hb⟩ | ⟨-, -, hb⟩ := b.acquire_cases now
  · rw [hb]
    refine ⟨hrefilled.rate, sub_nonneg.mpr hone, ?_⟩
    have hcapped := hrefilled.capped
    show (b.refill now).tokens - 1 ≤ (b.refill now).capacity
    linarith only [hcapped]
  · rw [hb]
    exact hrefilled

/-! ### The window -/

/-- A call as an entry of the ledger: the balance is what the tokens are. -/
def Acquired.entry (a : Acquired) : Entry ℚ where
  time := a.time
  granted := if a.admitted then 1 else 0
  balance := a.bucket.tokens

/-- A call pays for what it grants with the tokens and with what they have grown by. -/
theorem follows_acquire (h : b.Sound) (hnow : b.last ≤ now) :
    Follows b.rate b.capacity b.tokens b.last
      (Acquired.entry ⟨now, (b.acquire now).1, (b.acquire now).2⟩) := by
  have hrefilled := h.refill hnow
  have hcapped : (b.refill now).tokens ≤ b.capacity := by
    simpa using hrefilled.capped
  have hgrown : (b.refill now).tokens ≤ b.tokens + b.rate * (now - b.last) := by
    rw [TokenBucket.refill_tokens h hnow, mul_comm b.rate]
    exact min_le_right _ _
  obtain ⟨hone, hanswer, hb⟩ | ⟨-, hanswer, hb⟩ := b.acquire_cases now
  · refine ⟨hnow, ?_, ?_, ?_⟩
    · exact (h.acquire hnow).tokens
    · simpa [Acquired.entry, Acquired.admitted, hanswer, hb] using hcapped
    · simpa [Acquired.entry, Acquired.admitted, hanswer, hb] using hgrown
  · refine ⟨hnow, ?_, ?_, ?_⟩
    · exact (h.acquire hnow).tokens
    · simpa [Acquired.entry, Acquired.admitted, hanswer, hb] using hcapped
    · simpa [Acquired.entry, Acquired.admitted, hanswer, hb] using hgrown

variable {times : List ℚ}

theorem ledger_run (h : b.Sound) (hordered : (b.last :: times).Pairwise (· ≤ ·)) :
    Ledger b.rate b.capacity b.tokens b.last ((b.run times).map Acquired.entry) := by
  induction times generalizing b with
  | nil => trivial
  | cons now times ih =>
    obtain ⟨hfirst, hrest⟩ := List.pairwise_cons.mp hordered
    have hnow : b.last ≤ now := hfirst now List.mem_cons_self
    have hnext := ih (h.acquire hnow) (by simpa using hrest)
    rw [TokenBucket.acquire_rate, TokenBucket.acquire_capacity, TokenBucket.acquire_last] at hnext
    exact ⟨follows_acquire h hnow, hnext⟩

/-- What the ledger grants is what the calls are admitted. -/
theorem admissions_eq_grantedIn (s t : ℚ) (run : List Acquired) :
    admissions s t run = grantedIn s t (run.map Acquired.entry) := by
  induction run with
  | nil => rfl
  | cons a run ih =>
    rw [admissions] at ih
    rw [admissions, List.countP_cons, ih, List.map_cons, grantedIn, Nat.add_comm]
    congr 1
    by_cases hin : s ≤ a.time ∧ a.time ≤ t
    · simp [Acquired.entry, hin]
    · have hout : ¬(s ≤ a.entry.time ∧ a.entry.time ≤ t) := hin
      rw [if_neg hout, if_neg]
      intro hcounted
      rw [Bool.and_eq_true, Bool.and_eq_true, decide_eq_true_eq, decide_eq_true_eq] at hcounted
      exact hin ⟨hcounted.1.2, hcounted.2⟩

/-- In any window, a bucket admits at most its capacity and what it refills. -/
theorem admissions_le (h : b.Sound) (hordered : (b.last :: times).Pairwise (· ≤ ·)) {s t : ℚ}
    (hst : s ≤ t) :
    (admissions s t (b.run times) : ℚ) ≤ b.capacity + b.rate * (t - s) := by
  rw [admissions_eq_grantedIn]
  exact grantedIn_le h.rate.le (h.tokens.trans h.capped) (ledger_run h hordered) hst

/-! ### What every call leaves -/

theorem sound_run (h : b.Sound) (hordered : (b.last :: times).Pairwise (· ≤ ·)) :
    ∀ a ∈ b.run times, a.bucket.Sound ∧ a.bucket.rate = b.rate ∧
      a.bucket.capacity = b.capacity ∧ a.bucket.last = a.time ∧
      (∀ r, a.answer = some r → a.bucket.tokens < 1 ∧
        r = max 1 ⌈(1 - a.bucket.tokens) / b.rate⌉) := by
  induction times generalizing b with
  | nil =>
    intro a ha
    cases ha
  | cons now times ih =>
    obtain ⟨hfirst, hrest⟩ := List.pairwise_cons.mp hordered
    have hnow : b.last ≤ now := hfirst now List.mem_cons_self
    intro a ha
    rcases List.mem_cons.mp ha with rfl | ha
    · refine ⟨h.acquire hnow, b.acquire_rate now, b.acquire_capacity now, b.acquire_last now, ?_⟩
      intro r hr
      obtain ⟨-, hanswer, -⟩ | ⟨hless, hanswer, hb⟩ := b.acquire_cases now
      · rw [hanswer] at hr
        cases hr
      · rw [hanswer, TokenBucket.refill_rate] at hr
        show (b.acquire now).2.tokens < 1 ∧ _
        rw [hb]
        exact ⟨hless, (Option.some.inj hr).symm⟩
    · have hnext := ih (h.acquire hnow) (by simpa using hrest) a ha
      rw [TokenBucket.acquire_rate, TokenBucket.acquire_capacity] at hnext
      exact hnext

/-- The seconds of `Retry-After` bring the deficit in, as far as the capacity holds it. -/
theorem acquire_after_retry (h : b.Sound) (hcapacity : 1 ≤ b.capacity) {r : ℤ}
    (hr : r = max 1 ⌈(1 - b.tokens) / b.rate⌉) : (b.acquire (b.last + r)).1 = none := by
  have hpos : (1 : ℚ) ≤ r := by
    rw [hr]
    exact_mod_cast le_max_left 1 _
  have hlast : b.last ≤ b.last + r := by linarith only [hpos]
  have hdeficit : (1 - b.tokens) / b.rate ≤ r := by
    rw [hr]
    exact (Int.le_ceil _).trans (by exact_mod_cast le_max_right 1 _)
  have hgrowth : 1 - b.tokens ≤ r * b.rate := (div_le_iff₀ h.rate).mp hdeficit
  rw [TokenBucket.acquire_eq_none_iff, TokenBucket.refill_tokens h hlast, add_sub_cancel_left]
  exact le_min hcapacity (by linarith only [hgrowth])

/-- A bucket of less than one token admits nothing. -/
theorem acquire_of_capacity_lt (h : b.Sound) (hcapacity : b.capacity < 1) (hnow : b.last ≤ now) :
    (b.acquire now).1 ≠ none := by
  have hcapped := (h.refill hnow).capped
  rw [TokenBucket.refill_capacity] at hcapped
  rw [Ne, TokenBucket.acquire_eq_none_iff]
  exact not_le.mpr (hcapped.trans_lt hcapacity)

/-! ### The law -/

theorem RateLimit.value_pos (limit : RateLimit) : 0 < limit.value := by
  have h := limit.accepted
  unfold validateRateLimit at h
  split_ifs at h with hvalue
  exact not_le.mp hvalue

theorem RateLimit.sound (limit : RateLimit) (now : ℚ) : (limit.limiter now).Sound :=
  ⟨limit.value_pos, limit.value_pos.le, le_refl limit.value⟩

/-- Below one token for each second, the first call is turned away, and so is its retry. -/
theorem not_bucketLaw_of_lt (limit : RateLimit) (calls : Calls) (hvalue : limit.value < 1)
    (hcalls : calls.times ≠ []) : ¬BucketLaw limit.value limit.value (limit.run calls) := by
  intro hlaw
  have hsound := limit.sound calls.start
  obtain ⟨now, times, htimes⟩ := List.exists_cons_of_ne_nil hcalls
  have hfirst : (⟨now, ((limit.limiter calls.start).acquire now).1,
      ((limit.limiter calls.start).acquire now).2⟩ : Acquired) ∈ limit.run calls := by
    rw [RateLimit.run, htimes]
    exact List.mem_cons_self
  have hnow : calls.start ≤ now := by
    have hordered := calls.ordered
    rw [htimes] at hordered
    exact (List.pairwise_cons.mp hordered).1 now List.mem_cons_self
  obtain ⟨r, hr⟩ := Option.ne_none_iff_exists'.mp (acquire_of_capacity_lt hsound hvalue hnow)
  have hpos : (0 : ℚ) ≤ r := by
    have hanswer := (sound_run hsound calls.ordered _ hfirst).2.2.2.2 r hr
    rw [hanswer.2]
    exact_mod_cast (zero_le_one' ℤ).trans (le_max_left 1 _)
  have hretry := hlaw.retry _ hfirst r hr
  refine acquire_of_capacity_lt (hsound.acquire hnow) ?_ ?_ hretry
  · rw [TokenBucket.acquire_capacity]
    exact hvalue
  · rw [TokenBucket.acquire_last]
    linarith only [hpos]

/-- **The token bucket.**  A bucket that is called keeps the window bound and the range of its
tokens, and its promise of `Retry-After` iff its rate, which is its capacity, is at least one. -/
theorem bucketLaw_iff (limit : RateLimit) (calls : Calls) :
    BucketLaw limit.value limit.value (limit.run calls) ↔
      1 ≤ limit.value ∨ calls.times = [] := by
  have hsound := limit.sound calls.start
  have hrun := sound_run hsound calls.ordered
  constructor
  · intro hlaw
    by_contra hnot
    obtain ⟨hvalue, hcalls⟩ := not_or.mp hnot
    exact not_bucketLaw_of_lt limit calls (not_le.mp hvalue) hcalls hlaw
  · intro hcondition
    constructor
    · intro s t hst
      exact admissions_le hsound calls.ordered hst
    · intro a ha
      obtain ⟨hbucket, -, hcapacity, -⟩ := hrun a ha
      refine ⟨hbucket.tokens, ?_⟩
      have hcapped := hbucket.capped
      rw [hcapacity] at hcapped
      exact hcapped
    · intro a ha r hr
      have hvalue : 1 ≤ limit.value := by
        rcases hcondition with hvalue | hcalls
        · exact hvalue
        · rw [RateLimit.run, hcalls] at ha
          cases ha
      obtain ⟨hbucket, hrate, hcapacity, hlast, hanswer⟩ := hrun a ha
      rw [← hlast]
      apply acquire_after_retry hbucket
      · rw [hcapacity]
        exact hvalue
      · rw [hrate]
        exact (hanswer r hr).2

/-! ### Which calls are turned away -/

variable {done earlier later : List Acquired} {a : Acquired}

/-- The tokens at a time, after those calls: a bucket that was full at `s`, refilled since, without
what was admitted. -/
def Accounted (b : TokenBucket) (now : ℚ) (done : List Acquired) : Prop :=
  (∀ a ∈ done, a.time ≤ now) ∧
    ∃ s ≤ now, b.tokens = b.capacity + b.rate * (now - s) - admissions s now done

theorem Accounted.refill (h : Accounted b b.last done) (hb : b.Sound) (hnow : b.last ≤ now) :
    Accounted (b.refill now) now done := by
  obtain ⟨hdone, s, hs, htokens⟩ := h
  refine ⟨fun a ha => (hdone a ha).trans hnow, ?_⟩
  rw [TokenBucket.refill_rate, TokenBucket.refill_capacity, TokenBucket.refill_tokens hb hnow]
  rcases le_or_gt (b.tokens + (now - b.last) * b.rate) b.capacity with hle | hgt
  · have hsame : admissions s now done = admissions s b.last done :=
      List.countP_congr fun a ha => by simp [hdone a ha, (hdone a ha).trans hnow]
    refine ⟨s, hs.trans hnow, ?_⟩
    rw [min_eq_right hle, hsame, htokens]
    ring
  · -- full again, and later than every call so far
    have hlater : b.last < now := by
      refine lt_of_le_of_ne hnow fun heq => ?_
      rw [heq, sub_self, zero_mul, add_zero] at hgt
      exact not_le.mpr hgt hb.capped
    have hnone : admissions now now done = 0 := List.countP_eq_zero.mpr fun a ha => by
      simp [not_le.mpr ((hdone a ha).trans_lt hlater)]
    refine ⟨now, le_refl now, ?_⟩
    rw [min_eq_left hgt.le, hnone]
    ring

theorem admissions_cons {s t : ℚ} (hs : s ≤ a.time) (ht : a.time ≤ t) (run : List Acquired) :
    admissions s t (a :: run) = admissions s t run + if a.admitted then 1 else 0 := by
  simp [admissions, List.countP_cons, hs, ht]

/-- A call is turned away where the window since some time is full. -/
theorem exists_full_window (hb : b.Sound) (hordered : (b.last :: times).Pairwise (· ≤ ·))
    (h : Accounted b b.last done) (hsplit : b.run times = earlier ++ a :: later)
    (ha : a.admitted = false) : ∃ s ≤ a.time,
      b.capacity + b.rate * (a.time - s) < admissions s a.time (earlier.reverse ++ done) + 1 := by
  induction times generalizing b done earlier with
  | nil => simp [TokenBucket.run] at hsplit
  | cons now times ih =>
    obtain ⟨hfirst, hrest⟩ := List.pairwise_cons.mp hordered
    have hnow : b.last ≤ now := hfirst now List.mem_cons_self
    obtain ⟨hdone, s, hs, htokens⟩ := h.refill hb hnow
    rw [TokenBucket.refill_rate, TokenBucket.refill_capacity] at htokens
    cases earlier with
    | nil =>
      obtain ⟨rfl, -⟩ := List.cons.inj hsplit
      refine ⟨s, hs, ?_⟩
      have hless : (b.refill now).tokens < 1 := by
        obtain ⟨-, hanswer, -⟩ | ⟨hless, -⟩ := b.acquire_cases now
        · simp [Acquired.admitted, hanswer] at ha
        · exact hless
      rw [htokens] at hless
      show _ < (admissions s now done : ℚ) + 1
      linarith only [hless]
    | cons first earlier =>
      obtain ⟨rfl, htail⟩ := List.cons.inj hsplit
      have hnext : Accounted (b.acquire now).2 (b.acquire now).2.last
          (⟨now, (b.acquire now).1, (b.acquire now).2⟩ :: done) := by
        rw [Accounted, TokenBucket.acquire_last, TokenBucket.acquire_rate,
          TokenBucket.acquire_capacity]
        refine ⟨List.forall_mem_cons.mpr ⟨le_refl now, hdone⟩, s, hs, ?_⟩
        rw [admissions_cons hs (le_refl now)]
        obtain ⟨-, hanswer, hb'⟩ | ⟨-, hanswer, hb'⟩ := b.acquire_cases now
        · simp [Acquired.admitted, hanswer, hb', htokens]
          ring
        · simp [Acquired.admitted, hanswer, hb', htokens]
      have hlater := ih (hb.acquire hnow) (by simpa using hrest) hnext htail
      simpa using hlater

/-- **Which calls are turned away**: a call is admitted iff no window that ends with it would hold
more than its capacity and what is refilled in it. -/
theorem admitted_iff_room (limit : RateLimit) (calls : Calls)
    (hsplit : limit.run calls = earlier ++ a :: later) :
    a.admitted = true ↔ ∀ s ≤ a.time,
      (admissions s a.time earlier : ℚ) + 1 ≤ limit.value + limit.value * (a.time - s) := by
  have hsound := limit.sound calls.start
  constructor
  · intro ha s hs
    have hcount : admissions s a.time earlier + 1 ≤ admissions s a.time (limit.run calls) := by
      rw [hsplit, admissions, admissions, List.countP_append, List.countP_cons]
      simp [ha, hs]
    have hwindow := admissions_le hsound calls.ordered hs
    exact le_trans (by exact_mod_cast hcount) hwindow
  · intro hroom
    by_contra hrefused
    have hstart : Accounted (limit.limiter calls.start) calls.start [] := by
      refine ⟨fun a ha => absurd ha List.not_mem_nil, calls.start, le_refl _, ?_⟩
      simp [RateLimit.limiter, TokenBucket.new, admissions]
    obtain ⟨s, hs, hfull⟩ := exists_full_window hsound calls.ordered hstart hsplit
      (Bool.eq_false_of_not_eq_true hrefused)
    rw [List.append_nil, admissions, List.countP_reverse] at hfull
    exact absurd (hroom s hs) (not_le.mpr hfull)

/-- Half a token for each second, and one call. -/
def halfLimit : RateLimit := ⟨1 / 2, if_neg (by norm_num)⟩

def oneCall : Calls := ⟨0, [0], by simp⟩

theorem half_admitted_iff :
    ((halfLimit.limiter 0).acquire 0).1.isNone = true ↔
      ∀ s ≤ 0, (admissions s 0 [] : ℚ) + 1 ≤ 1 / 2 + 1 / 2 * (0 - s) :=
  admitted_iff_room halfLimit oneCall (show _ = [] ++ _ :: [] from rfl)

/-- The call is told to come back after one second, and would be told so again. -/
theorem not_bucketLaw :
    ¬ ∀ (limit : RateLimit) (calls : Calls),
      BucketLaw limit.value limit.value (limit.run calls) := by
  intro hlaw
  have hvalue : halfLimit.value < 1 := by norm_num [halfLimit]
  exact not_bucketLaw_of_lt halfLimit oneCall hvalue (List.cons_ne_nil _ _) (hlaw _ _)

end Lnpl.Serve
