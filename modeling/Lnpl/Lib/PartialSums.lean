import Mathlib.Algebra.BigOperators.Group.List.Basic
import Mathlib.Algebra.Order.Group.Int
import Mathlib.Algebra.Ring.Int.Defs

/-!
# Partial sums in a range

The sums on the way through a list of integers, and whether they stay in a range in whatever order
the integers come.  They do in every order iff the gains and the losses are in the range on their
own (`sumsWithin_all_iff`); numbers that are in the range themselves, and their sum with them, have
an order in which they do (`exists_perm_sumsWithin`).
-/

namespace Lnpl.Lib.PartialSums

/-- Every sum on the way from `start` is in the range. -/
def SumsWithin (lo hi start : Int) : List Int → Prop
  | [] => True
  | n :: ns => (lo ≤ start + n ∧ start + n ≤ hi) ∧ SumsWithin lo hi (start + n) ns

instance decidableSumsWithin (lo hi start : Int) :
    (ns : List Int) → Decidable (SumsWithin lo hi start ns)
  | [] => isTrue trivial
  | n :: ns =>
    have := decidableSumsWithin lo hi (start + n) ns
    inferInstanceAs (Decidable ((lo ≤ start + n ∧ start + n ≤ hi) ∧ _))

/-- The sum of the positive numbers. -/
def gains (ns : List Int) : Int := (ns.map (max 0)).sum

/-- The sum of the negative numbers. -/
def losses (ns : List Int) : Int := (ns.map (min 0)).sum

variable {lo hi start : Int} {ns ms : List Int}

/-! ### Gains and losses -/

@[simp] theorem gains_cons (n : Int) (ns : List Int) : gains (n :: ns) = max 0 n + gains ns := rfl

@[simp] theorem losses_cons (n : Int) (ns : List Int) : losses (n :: ns) = min 0 n + losses ns :=
  rfl

theorem gains_nonneg (ns : List Int) : 0 ≤ gains ns := by
  induction ns with
  | nil => exact le_refl 0
  | cons n ns ih =>
    rw [gains_cons]
    omega

theorem losses_nonpos (ns : List Int) : losses ns ≤ 0 := by
  induction ns with
  | nil => exact le_refl 0
  | cons n ns ih =>
    rw [losses_cons]
    omega

theorem gains_add_losses (ns : List Int) : gains ns + losses ns = ns.sum := by
  induction ns with
  | nil => rfl
  | cons n ns ih =>
    rw [gains_cons, losses_cons, List.sum_cons]
    omega

theorem gains_perm (h : ms.Perm ns) : gains ms = gains ns := (h.map _).sum_eq

theorem losses_perm (h : ms.Perm ns) : losses ms = losses ns := (h.map _).sum_eq

theorem losses_eq_zero (h : ∀ n ∈ ns, 0 ≤ n) : losses ns = 0 := by
  induction ns with
  | nil => rfl
  | cons n ns ih =>
    rw [List.forall_mem_cons] at h
    rw [losses_cons, ih h.2, min_eq_left h.1, add_zero]

theorem gains_eq_zero (h : ∀ n ∈ ns, n ≤ 0) : gains ns = 0 := by
  induction ns with
  | nil => rfl
  | cons n ns ih =>
    rw [List.forall_mem_cons] at h
    rw [gains_cons, ih h.2, max_eq_left h.1, add_zero]

/-! ### One order -/

theorem SumsWithin.sum (h : SumsWithin lo hi start ns) (hstart : lo ≤ start ∧ start ≤ hi) :
    lo ≤ start + ns.sum ∧ start + ns.sum ≤ hi := by
  induction ns generalizing start with
  | nil => rwa [List.sum_nil, add_zero]
  | cons n ns ih =>
    rw [List.sum_cons, ← add_assoc]
    exact ih h.2 h.1

theorem SumsWithin.left (h : SumsWithin lo hi start (ns ++ ms)) : SumsWithin lo hi start ns := by
  induction ns generalizing start with
  | nil => trivial
  | cons n ns ih => exact ⟨h.1, ih h.2⟩

/-- The gains and the losses bound every sum on the way. -/
theorem sumsWithin_of_bounds (hhigh : start + gains ns ≤ hi) (hlow : lo ≤ start + losses ns) :
    SumsWithin lo hi start ns := by
  induction ns generalizing start with
  | nil => trivial
  | cons n ns ih =>
    rw [gains_cons] at hhigh
    rw [losses_cons] at hlow
    have hgains := gains_nonneg ns
    have hlosses := losses_nonpos ns
    refine ⟨⟨by omega, by omega⟩, ih ?_ ?_⟩
    · omega
    · omega

/-! ### Every order -/

/-- The gains come first. -/
def gainsFirst (ns : List Int) : List Int :=
  ns.filter (fun n => 0 ≤ n) ++ ns.filter (fun n => !decide (0 ≤ n))

/-- The losses come first. -/
def lossesFirst (ns : List Int) : List Int :=
  ns.filter (fun n => n ≤ 0) ++ ns.filter (fun n => !decide (n ≤ 0))

theorem gainsFirst_perm (ns : List Int) : (gainsFirst ns).Perm ns := List.filter_append_perm _ ns

theorem lossesFirst_perm (ns : List Int) : (lossesFirst ns).Perm ns := List.filter_append_perm _ ns

theorem sum_filter_gains (ns : List Int) : (ns.filter (fun n => 0 ≤ n)).sum = gains ns := by
  induction ns with
  | nil => rfl
  | cons n ns ih =>
    rw [gains_cons, ← ih, List.filter_cons]
    split_ifs with hsign
    · rw [List.sum_cons, max_eq_right (of_decide_eq_true hsign)]
    · rw [decide_eq_true_iff, not_le] at hsign
      rw [max_eq_left hsign.le, zero_add]

theorem sum_filter_losses (ns : List Int) : (ns.filter (fun n => n ≤ 0)).sum = losses ns := by
  induction ns with
  | nil => rfl
  | cons n ns ih =>
    rw [losses_cons, ← ih, List.filter_cons]
    split_ifs with hsign
    · rw [List.sum_cons, min_eq_right (of_decide_eq_true hsign)]
    · rw [decide_eq_true_iff, not_le] at hsign
      rw [min_eq_left hsign.le, zero_add]

/-- **In every order** the sums stay in the range iff the gains and the losses do. -/
theorem sumsWithin_all_iff (hstart : lo ≤ start ∧ start ≤ hi) :
    (∀ ms : List Int, ms.Perm ns → SumsWithin lo hi start ms) ↔
      start + gains ns ≤ hi ∧ lo ≤ start + losses ns := by
  constructor
  · intro h
    have hgains := (h _ (gainsFirst_perm ns)).left.sum hstart
    have hlosses := (h _ (lossesFirst_perm ns)).left.sum hstart
    rw [sum_filter_gains] at hgains
    rw [sum_filter_losses] at hlosses
    exact ⟨hgains.2, hlosses.1⟩
  · rintro ⟨hhigh, hlow⟩ ms hperm
    rw [← gains_perm hperm] at hhigh
    rw [← losses_perm hperm] at hlow
    exact sumsWithin_of_bounds hhigh hlow

/-- **In some order** the sums stay in the range: a loss is taken while the sum is positive, and a
gain while it is not, as long as there are any. -/
theorem exists_perm_sumsWithin (hstart : lo ≤ start ∧ start ≤ hi)
    (hall : ∀ n ∈ ns, lo ≤ n ∧ n ≤ hi) (hsum : lo ≤ start + ns.sum ∧ start + ns.sum ≤ hi) :
    ∃ ms : List Int, ms.Perm ns ∧ SumsWithin lo hi start ms := by
  induction hlen : ns.length generalizing start ns with
  | zero =>
    rw [List.length_eq_zero_iff] at hlen
    exact ⟨[], by rw [hlen], trivial⟩
  | succ k ih =>
    -- a number that may come next leaves the same problem with one number less
    have hnext : ∀ n ∈ ns, lo ≤ start + n ∧ start + n ≤ hi →
        ∃ ms : List Int, ms.Perm ns ∧ SumsWithin lo hi start ms := by
      intro n hn hwithin
      have hperm : ns.Perm (n :: ns.erase n) := List.perm_cons_erase hn
      have htotal : ns.sum = n + (ns.erase n).sum := by
        rw [hperm.sum_eq, List.sum_cons]
      obtain ⟨ms, hms, hsums⟩ := @ih (start + n) (ns.erase n) hwithin
        (fun m hm => hall m (List.mem_of_mem_erase hm)) (by omega)
        (by rw [List.length_erase_of_mem hn]; omega)
      exact ⟨n :: ms, (hms.cons n).trans hperm.symm, hwithin, hsums⟩
    by_cases hpositive : 0 < start
    · by_cases hloss : ∃ n ∈ ns, n < 0
      · obtain ⟨n, hn, hneg⟩ := hloss
        have hbounds := hall n hn
        exact hnext n hn (by omega)
      · have hgains : ∀ n ∈ ns, 0 ≤ n := fun n hn => not_lt.mp fun hneg => hloss ⟨n, hn, hneg⟩
        have htotal := gains_add_losses ns
        have hlosses := losses_eq_zero hgains
        exact ⟨ns, .refl ns, sumsWithin_of_bounds (by omega) (by omega)⟩
    · by_cases hgain : ∃ n ∈ ns, 0 < n
      · obtain ⟨n, hn, hpos⟩ := hgain
        have hbounds := hall n hn
        exact hnext n hn (by omega)
      · have hlosses : ∀ n ∈ ns, n ≤ 0 := fun n hn => not_lt.mp fun hpos => hgain ⟨n, hn, hpos⟩
        have htotal := gains_add_losses ns
        have hgains := gains_eq_zero hlosses
        exact ⟨ns, .refl ns, sumsWithin_of_bounds (by omega) (by omega)⟩

/-- **The order makes no difference** iff every order keeps the sums in the range or none does: the
sum is outside, or some number is and cannot be placed. -/
theorem sumsWithin_congr_iff (hzero : lo ≤ 0 ∧ 0 ≤ hi) :
    (∀ ms : List Int, ms.Perm ns → (SumsWithin lo hi 0 ns ↔ SumsWithin lo hi 0 ms)) ↔
      (gains ns ≤ hi ∧ lo ≤ losses ns) ∨ (ns.sum < lo ∨ hi < ns.sum) ∨
        (∃ n ∈ ns, n < lo ∨ hi < n) ∧ ∀ ms : List Int, ms.Perm ns → ¬SumsWithin lo hi 0 ms := by
  have hall := @sumsWithin_all_iff lo hi 0 ns hzero
  simp only [zero_add] at hall
  constructor
  · intro h
    by_cases hwithin : SumsWithin lo hi 0 ns
    · exact .inl (hall.mp fun ms hms => (h ms hms).mp hwithin)
    · have hnone : ∀ ms : List Int, ms.Perm ns → ¬SumsWithin lo hi 0 ms := fun ms hms hms' =>
        hwithin ((h ms hms).mpr hms')
      by_cases hsum : ns.sum < lo ∨ hi < ns.sum
      · exact .inr (.inl hsum)
      · refine .inr (.inr ⟨?_, hnone⟩)
        by_contra hfits
        have hfits' : ∀ n ∈ ns, lo ≤ n ∧ n ≤ hi := by
          intro n hn
          constructor
          · exact not_lt.mp fun hlt => hfits ⟨n, hn, .inl hlt⟩
          · exact not_lt.mp fun hlt => hfits ⟨n, hn, .inr hlt⟩
        obtain ⟨ms, hms, hsums⟩ := exists_perm_sumsWithin hzero hfits' (by omega)
        exact hnone ms hms hsums
  · intro h ms hms
    rcases h with hbounds | hsum | ⟨-, hnone⟩
    · exact iff_of_true (hall.mpr hbounds ns (.refl ns)) (hall.mpr hbounds ms hms)
    · have hfails : ∀ ms : List Int, ms.Perm ns → ¬SumsWithin lo hi 0 ms := by
        intro ms hms hsums
        have htotal := hsums.sum hzero
        rw [hms.sum_eq] at htotal
        omega
      exact iff_of_false (hfails ns (.refl ns)) (hfails ms hms)
    · exact iff_of_false (hnone ns (.refl ns)) (hnone ms hms)

end Lnpl.Lib.PartialSums
