import Mathlib.Algebra.Order.Field.Basic
import Mathlib.Tactic.Linarith
import Mathlib.Tactic.Ring

/-!
# Balances that refill

A balance grows with time at some rate, up to a cap, and pays for what is granted.  Whatever is
granted inside a window of time was paid from what the balance held when the window opened, which
is at most the cap, and from what it has grown by since.
-/

namespace Lnpl.Lib.Credit

variable {K : Type*} [Field K] [LinearOrder K] [IsStrictOrderedRing K]

/-- What happened at one moment: how much was granted, and the balance that is left. -/
structure Entry (K : Type*) where
  time : K
  granted : ℕ
  balance : K

/-- The entry follows a balance `b` at the time `t`. -/
structure Follows (rate cap b t : K) (e : Entry K) : Prop where
  later : t ≤ e.time
  solvent : 0 ≤ e.balance
  capped : e.balance + e.granted ≤ cap
  grown : e.balance + e.granted ≤ b + rate * (e.time - t)

/-- The entries follow one another, from a balance `b` at the time `t`. -/
def Ledger (rate cap : K) : K → K → List (Entry K) → Prop
  | _, _, [] => True
  | b, t, e :: l => Follows rate cap b t e ∧ Ledger rate cap e.balance e.time l

/-- How much was granted from the time `s` to the time `t`. -/
def grantedIn (s t : K) : List (Entry K) → ℕ
  | [] => 0
  | e :: l => (if s ≤ e.time ∧ e.time ≤ t then e.granted else 0) + grantedIn s t l

variable {rate cap b s t u : K} {l : List (Entry K)}

omit [IsStrictOrderedRing K] in
/-- Nothing is granted after a window has closed. -/
theorem grantedIn_of_closed (h : Ledger rate cap b u l) (hclosed : t < u) :
    grantedIn s t l = 0 := by
  induction l generalizing b u with
  | nil => rfl
  | cons e l ih =>
    have hlater : t < e.time := lt_of_lt_of_le hclosed h.1.later
    have hout : ¬(s ≤ e.time ∧ e.time ≤ t) := fun hin => absurd hin.2 (not_le.mpr hlater)
    rw [grantedIn, if_neg hout, ih h.2 hlater]

/-- In a window that is open, what is granted is paid from the balance and its growth. -/
theorem grantedIn_le_of_open (hrate : 0 ≤ rate) (h : Ledger rate cap b u l) (hb : 0 ≤ b)
    (hopen : s ≤ u) (hu : u ≤ t) : (grantedIn s t l : K) ≤ b + rate * (t - u) := by
  induction l generalizing b u with
  | nil =>
    have hgrowth : 0 ≤ rate * (t - u) := mul_nonneg hrate (sub_nonneg.mpr hu)
    simpa [grantedIn] using add_nonneg hb hgrowth
  | cons e l ih =>
    have hs : s ≤ e.time := le_trans hopen h.1.later
    by_cases ht : e.time ≤ t
    · have hrest := ih h.2 h.1.solvent hs ht
      have hgrown := h.1.grown
      rw [grantedIn, if_pos ⟨hs, ht⟩]
      push_cast
      calc (e.granted : K) + grantedIn s t l
          ≤ e.granted + (e.balance + rate * (t - e.time)) := by linarith only [hrest]
        _ ≤ b + rate * (e.time - u) + rate * (t - e.time) := by linarith only [hgrown]
        _ = b + rate * (t - u) := by ring
    · have hclosed : t < e.time := not_le.mp ht
      have hgrowth : 0 ≤ rate * (t - u) := mul_nonneg hrate (sub_nonneg.mpr hu)
      rw [grantedIn, if_neg fun hin => ht hin.2, grantedIn_of_closed h.2 hclosed]
      simpa using add_nonneg hb hgrowth

/-- **The window bound.**  In any window, at most the cap and the growth of its length is
granted. -/
theorem grantedIn_le (hrate : 0 ≤ rate) (hcap : 0 ≤ cap) (h : Ledger rate cap b u l)
    (hst : s ≤ t) : (grantedIn s t l : K) ≤ cap + rate * (t - s) := by
  have hgrowth : 0 ≤ rate * (t - s) := mul_nonneg hrate (sub_nonneg.mpr hst)
  induction l generalizing b u with
  | nil => simpa [grantedIn] using add_nonneg hcap hgrowth
  | cons e l ih =>
    by_cases hin : s ≤ e.time ∧ e.time ≤ t
    · have hrest := grantedIn_le_of_open hrate h.2 h.1.solvent hin.1 hin.2
      have hcapped := h.1.capped
      have hspent : 0 ≤ rate * (e.time - s) := mul_nonneg hrate (sub_nonneg.mpr hin.1)
      rw [grantedIn, if_pos hin]
      push_cast
      calc (e.granted : K) + grantedIn s t l
          ≤ e.granted + (e.balance + rate * (t - e.time)) := by linarith only [hrest]
        _ ≤ cap + rate * (t - e.time) := by linarith only [hcapped]
        _ ≤ cap + rate * (t - e.time) + rate * (e.time - s) := by linarith only [hspent]
        _ = cap + rate * (t - s) := by ring
    · rw [grantedIn, if_neg hin, Nat.zero_add]
      exact ih h.2

end Lnpl.Lib.Credit
