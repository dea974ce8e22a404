import Mathlib.Data.Int.Log
import Mathlib.Data.Rat.Floor
import Mathlib.Tactic.Positivity

/-!
# Rounding to the nearest, of two to the even one

Integers near a rational number (`halfEven`), and its value in a number of significant digits
(`roundTo`).  Two roundings in a row give what the second gives alone if the first moves no number
to or past a tie (`halfEven_congr`).
-/

namespace Lnpl.Lib.Rounding

/-! ### To integers -/

/-- The integer that is nearest to `q`; of two, the even one. -/
def halfEven (q : ℚ) : ℤ :=
  if 2 * (q - ⌊q⌋) < 1 then ⌊q⌋
  else if 1 < 2 * (q - ⌊q⌋) then ⌊q⌋ + 1
  else if ⌊q⌋ % 2 = 0 then ⌊q⌋
  else ⌊q⌋ + 1

/-- No integer is nearer to `q` than `n`, and only an even one as near. -/
def IsHalfEven (q : ℚ) (n : ℤ) : Prop := |q - n| < 1 / 2 ∨ |q - n| = 1 / 2 ∧ n % 2 = 0

theorem isHalfEven_halfEven (q : ℚ) : IsHalfEven q (halfEven q) := by
  have hle : (⌊q⌋ : ℚ) ≤ q := Int.floor_le q
  have hlt : q < ⌊q⌋ + 1 := Int.lt_floor_add_one q
  have hbelow : |q - ⌊q⌋| = q - ⌊q⌋ := abs_of_nonneg (by linarith)
  have habove : |q - ((⌊q⌋ + 1 : ℤ) : ℚ)| = ⌊q⌋ + 1 - q := by
    rw [abs_of_nonpos (by push_cast; linarith)]
    push_cast
    ring
  rw [IsHalfEven, halfEven]
  split_ifs with hfirst hsecond heven
  · left
    rw [hbelow]
    linarith
  · left
    rw [habove]
    linarith
  · right
    rw [hbelow]
    exact ⟨by linarith, heven⟩
  · right
    rw [habove]
    exact ⟨by linarith, by omega⟩

variable {n m a b : ℤ}

theorem IsHalfEven.abs_sub_le {q : ℚ} (h : IsHalfEven q n) : |q - n| ≤ 1 / 2 := by
  rcases h with h | ⟨h, -⟩
  · exact h.le
  · exact h.le

/-- Of two neighbours only one is even. -/
theorem IsHalfEven.not_succ {q : ℚ} (hn : IsHalfEven q n) : ¬IsHalfEven q (n + 1) := by
  intro hm
  have hn' := abs_le.mp hn.abs_sub_le
  have hm' := abs_le.mp hm.abs_sub_le
  push_cast at hm'
  have hq : q = n + 1 / 2 := by linarith
  have heven : (n + 1) % 2 = 0 := by
    rcases hm with h | ⟨-, h⟩
    · rw [hq] at h
      push_cast at h
      rw [abs_lt] at h
      linarith
    · exact h
  have heven' : n % 2 = 0 := by
    rcases hn with h | ⟨-, h⟩
    · rw [hq, abs_lt] at h
      linarith
    · exact h
  omega

theorem IsHalfEven.unique {q : ℚ} (hm : IsHalfEven q m) (hn : IsHalfEven q n) : m = n := by
  have hm' := abs_le.mp hm.abs_sub_le
  have hn' := abs_le.mp hn.abs_sub_le
  have hlow : (m : ℚ) - 1 ≤ n := by linarith
  have hhigh : (n : ℚ) - 1 ≤ m := by linarith
  have hlow' : m - 1 ≤ n := by exact_mod_cast hlow
  have hhigh' : n - 1 ≤ m := by exact_mod_cast hhigh
  by_contra hne
  have hneighbours : m = n + 1 ∨ n = m + 1 := by omega
  rcases hneighbours with rfl | rfl
  · exact hn.not_succ hm
  · exact hm.not_succ hn

theorem halfEven_eq {q : ℚ} (h : IsHalfEven q n) : halfEven q = n :=
  (isHalfEven_halfEven q).unique h

theorem halfEven_intCast (n : ℤ) : halfEven n = n := by
  apply halfEven_eq
  left
  rw [sub_self, abs_zero]
  norm_num

theorem le_halfEven {q : ℚ} (h : (m : ℚ) ≤ q) : m ≤ halfEven q := by
  have hnear := abs_le.mp (isHalfEven_halfEven q).abs_sub_le
  have hlt : (m : ℚ) < halfEven q + 1 := by linarith
  have hlt' : m < halfEven q + 1 := by exact_mod_cast hlt
  omega

theorem halfEven_le {q : ℚ} (h : q ≤ m) : halfEven q ≤ m := by
  have hnear := abs_le.mp (isHalfEven_halfEven q).abs_sub_le
  have hlt : (halfEven q : ℚ) < m + 1 := by linarith
  have hlt' : halfEven q < m + 1 := by exact_mod_cast hlt
  omega

/-- **A number beside `q`** has the same nearest integer, if it is nearer to `q` than every tie is,
and is `q` where `q` is a tie. -/
theorem halfEven_congr {q r : ℚ} (hties : ∀ k : ℤ, q ≠ k + 1 / 2 → |r - q| < |q - (k + 1 / 2)|)
    (hsame : ∀ k : ℤ, q = k + 1 / 2 → r = q) : halfEven r = halfEven q := by
  by_cases htie : ∃ k : ℤ, q = k + 1 / 2
  · obtain ⟨k, hk⟩ := htie
    rw [hsame k hk]
  · rw [not_exists] at htie
    apply halfEven_eq
    left
    have hnear := isHalfEven_halfEven q
    set n := halfEven q with hn
    have hlt : |q - n| < 1 / 2 := by
      rcases hnear with h | ⟨h, -⟩
      · exact h
      · rcases abs_choice (q - n) with habs | habs
        · exact absurd (show q = n + 1 / 2 by linarith) (htie n)
        · have hbefore : q = ((n - 1 : ℤ) : ℚ) + 1 / 2 := by
            push_cast
            linarith
          exact absurd hbefore (htie (n - 1))
    rw [abs_lt] at hlt ⊢
    have hup := hties n (htie n)
    have hdown := hties (n - 1) (htie (n - 1))
    push_cast at hdown
    rw [abs_of_neg (show q - (n + 1 / 2) < 0 by linarith), abs_lt] at hup
    rw [abs_of_pos (show 0 < q - (n - 1 + 1 / 2) by linarith), abs_lt] at hdown
    constructor
    · linarith
    · linarith

/-! ### To significant digits -/

/-- The exponent of the last of `digits` digits of `q`, and no less than `tiny`. -/
def unitExponent (digits : ℕ) (tiny : ℤ) (q : ℚ) : ℤ := max (Int.log 10 |q| + 1 - digits) tiny

/-- `q` in `digits` significant digits, whose exponent is no less than `tiny`. -/
def roundTo (digits : ℕ) (tiny : ℤ) (q : ℚ) : ℚ :=
  halfEven (q / 10 ^ unitExponent digits tiny q) * 10 ^ unitExponent digits tiny q

variable {digits : ℕ} {tiny : ℤ} {q : ℚ}

theorem abs_roundTo_sub_le (digits : ℕ) (tiny : ℤ) (q : ℚ) :
    |roundTo digits tiny q - q| ≤ 10 ^ unitExponent digits tiny q / 2 := by
  rw [roundTo]
  generalize unitExponent digits tiny q = u
  have hpos : (0 : ℚ) < 10 ^ u := zpow_pos (by norm_num) u
  have hnear := (isHalfEven_halfEven (q / 10 ^ u)).abs_sub_le
  have hscale : (halfEven (q / 10 ^ u) : ℚ) * 10 ^ u - q =
      -((q / 10 ^ u - halfEven (q / 10 ^ u)) * 10 ^ u) := by
    field_simp
    ring
  rw [hscale, abs_neg, abs_mul, abs_of_pos hpos]
  calc |q / 10 ^ u - halfEven (q / 10 ^ u)| * 10 ^ u ≤ 1 / 2 * 10 ^ u :=
        mul_le_mul_of_nonneg_right hnear hpos.le
    _ = 10 ^ u / 2 := by ring

/-- A number that has no digits to lose. -/
theorem roundTo_eq_self (h : q / 10 ^ unitExponent digits tiny q = m) :
    roundTo digits tiny q = q := by
  rw [roundTo, h, halfEven_intCast, ← h]
  have hne : (10 : ℚ) ^ unitExponent digits tiny q ≠ 0 := zpow_ne_zero _ (by norm_num)
  exact div_mul_cancel₀ q hne

/-- A quotient that is no tie is not nearer to one than this. -/
theorem one_le_abs_sub_tie (hb : 0 < b) (k : ℤ) (h : (a / b : ℚ) ≠ k + 1 / 2) :
    1 / (2 * b : ℚ) ≤ |(a / b : ℚ) - (k + 1 / 2)| := by
  have hb' : (0 : ℚ) < b := by exact_mod_cast hb
  have hdistance : (a / b : ℚ) - (k + 1 / 2) = ((2 * a - (2 * k + 1) * b : ℤ) : ℚ) / (2 * b) := by
    push_cast
    field_simp
  have hne : 2 * a - (2 * k + 1) * b ≠ 0 := by
    intro hzero
    rw [hzero, Int.cast_zero, zero_div, sub_eq_zero] at hdistance
    exact h hdistance
  have hone : (1 : ℚ) ≤ |((2 * a - (2 * k + 1) * b : ℤ) : ℚ)| := by
    exact_mod_cast Int.one_le_abs hne
  rw [hdistance, abs_div, abs_of_pos (show (0 : ℚ) < 2 * b by linarith)]
  exact div_le_div_of_nonneg_right hone (by linarith)

/-- A tie has no digits to lose. -/
theorem roundTo_tie {k : ℤ} (hunit : unitExponent digits tiny (k + 1 / 2) ≤ -1) :
    roundTo digits tiny (k + 1 / 2) = k + 1 / 2 := by
  obtain ⟨n, hn⟩ : ∃ n : ℕ, unitExponent digits tiny ((k : ℚ) + 1 / 2) = -1 - n := by
    exact ⟨(-1 - unitExponent digits tiny ((k : ℚ) + 1 / 2)).toNat, by omega⟩
  have hwhole : ((k : ℚ) + 1 / 2) / 10 ^ unitExponent digits tiny ((k : ℚ) + 1 / 2) =
      ((5 * (2 * k + 1) * 10 ^ n : ℤ) : ℚ) := by
    rw [hn, zpow_sub₀ (by norm_num), zpow_natCast]
    push_cast
    field_simp
    ring
  exact roundTo_eq_self hwhole

/-- **Two roundings** of a quotient: digits that are more than those of the dividend lose nothing
of the second. -/
theorem halfEven_roundTo {places : ℕ} (hb : 0 < b) (ha : |a| < 10 ^ places)
    (htiny : tiny + places + 1 < 0) :
    halfEven (roundTo (places + 1) tiny (a / b)) = halfEven (a / b) := by
  have hb' : (1 : ℚ) ≤ b := by exact_mod_cast hb
  have ha' : |(a : ℚ)| < 10 ^ places := by exact_mod_cast ha
  set q : ℚ := a / b with hq
  have habs : |q| = |(a : ℚ)| / b := by
    rw [hq, abs_div, abs_of_pos (show (0 : ℚ) < b by linarith)]
  have herror := abs_roundTo_sub_le (places + 1) tiny q
  by_cases hzero : q = 0
  · have hwhole : q / 10 ^ unitExponent (places + 1) tiny q = ((0 : ℤ) : ℚ) := by
      rw [hzero, zero_div, Int.cast_zero]
    rw [roundTo_eq_self hwhole]
  have hqpos : 0 < |q| := abs_pos.mpr hzero
  have hlog : (10 : ℚ) ^ Int.log 10 |q| ≤ |q| := by
    exact_mod_cast Int.zpow_log_le_self (by norm_num : 1 < 10) hqpos
  by_cases hsmall : Int.log 10 |q| + 1 - ((places + 1 : ℕ) : ℤ) ≤ tiny
  · -- Below the least exponent the number is as good as zero.
    have hunit : unitExponent (places + 1) tiny q = tiny := by
      rw [unitExponent, max_eq_right hsmall]
    have htenth : ∀ e : ℤ, e ≤ -1 → (10 : ℚ) ^ e ≤ 1 / 10 := by
      intro e he
      calc (10 : ℚ) ^ e ≤ 10 ^ (-1 : ℤ) := zpow_le_zpow_right₀ (by norm_num) he
        _ = 1 / 10 := by norm_num
    have hlt : |q| < 10 ^ (Int.log 10 |q| + 1) := by
      exact_mod_cast Int.lt_zpow_succ_log_self (by norm_num : 1 < 10) |q|
    have hq' := abs_lt.mp (hlt.trans_le (htenth _ (by push_cast at hsmall; omega)))
    rw [hunit] at herror
    have herror' := abs_le.mp (herror.trans (div_le_div_of_nonneg_right
      (htenth tiny (by omega)) (by norm_num)))
    have hround : IsHalfEven (roundTo (places + 1) tiny q) 0 := by
      left
      rw [Int.cast_zero, sub_zero, abs_lt]
      constructor
      · linarith
      · linarith
    have hexact : IsHalfEven q 0 := by
      left
      rw [Int.cast_zero, sub_zero, abs_lt]
      constructor
      · linarith
      · linarith
    rw [halfEven_eq hround, halfEven_eq hexact]
  · have hunit : unitExponent (places + 1) tiny q = Int.log 10 |q| - places := by
      rw [unitExponent, max_eq_left (by omega)]
      push_cast
      ring
    have hscale : (10 : ℚ) ^ unitExponent (places + 1) tiny q < 1 / b := by
      rw [hunit, zpow_sub₀ (by norm_num), zpow_natCast,
        div_lt_div_iff₀ (by positivity) (by linarith), one_mul]
      have hmul : (10 : ℚ) ^ Int.log 10 |q| * b ≤ |(a : ℚ)| := by
        rw [← le_div_iff₀ (by linarith), ← habs]
        exact hlog
      exact hmul.trans_lt ha'
    apply halfEven_congr
    · intro k hk
      have hfar := one_le_abs_sub_tie hb k hk
      have hhalf : (1 : ℚ) / (2 * b) = 1 / b / 2 := by
        rw [div_div, mul_comm]
      linarith
    · intro k hk
      have hdigits : Int.log 10 |q| < places := by
        apply (Int.lt_zpow_iff_log_lt (by norm_num : 1 < 10) hqpos).mp
        rw [habs]
        have hdiv : |(a : ℚ)| / b ≤ |(a : ℚ)| := div_le_self (abs_nonneg _) hb'
        exact_mod_cast hdiv.trans_lt ha'
      rw [hk] at hunit hdigits ⊢
      exact roundTo_tie (by omega)

end Lnpl.Lib.Rounding
