import Mathlib.Algebra.BigOperators.Ring.List
import Mathlib.Algebra.Order.BigOperators.Group.List
import Lnpl.Interp.Aggregates
import Lnpl.Lib.PartialSums
import Lnpl.Lib.Results

/-!
# Sums and averages

What `_eval_sum_avg` returns in terms of the numbers, or the minor units, of the values; and
`avg_round`, whose two roundings give the nearest integer, of two the even one (`avgRound_eq`).  An
average is between two of the averaged values (`IsAverage`).
-/

namespace Lnpl.Interp

open Front (Python AggFunc)
open Lib (Rounding.halfEven Rounding.IsHalfEven Rounding.halfEven_roundTo Rounding.le_halfEven
  Rounding.halfEven_le Rounding.isHalfEven_halfEven bind_eq_ok mapM_eq_ok PartialSums.SumsWithin)

/-! ### Averages -/

variable {total count : Int} {values rest : List Json} {ns : List Int}
  {aggFieldType : Option String}

theorem halfEven_div_bounds (hlow : int64Min ≤ total) (hhigh : total ≤ int64Max)
    (hcount : 1 ≤ count) :
    int64Min ≤ Rounding.halfEven (total / count) ∧
      Rounding.halfEven (total / count) ≤ int64Max := by
  have hcount' : (1 : ℚ) ≤ count := by exact_mod_cast hcount
  have hlow' : ((int64Min : Int) : ℚ) ≤ total := by exact_mod_cast hlow
  have hhigh' : (total : ℚ) ≤ (int64Max : Int) := by exact_mod_cast hhigh
  have hmin : ((int64Min : Int) : ℚ) ≤ 0 := by
    rw [int64Min]
    norm_num
  have hmax : (0 : ℚ) ≤ ((int64Max : Int) : ℚ) := by
    rw [int64Max]
    norm_num
  constructor
  · apply Rounding.le_halfEven
    rw [le_div_iff₀ (by linarith)]
    nlinarith
  · apply Rounding.halfEven_le
    rw [div_le_iff₀ (by linarith)]
    nlinarith

/-- **`avg_round`** is the nearest integer, though it rounds a quotient of 28 digits. -/
theorem avgRound_eq (hlow : int64Min ≤ total) (hhigh : total ≤ int64Max) (hcount : 1 ≤ count) :
    avgRound total count = .ok (Rounding.halfEven (total / count)) := by
  have hexact : Rounding.halfEven (divideDecimals total count) =
      Rounding.halfEven (total / count) := by
    have hdigits : |total| < 10 ^ 27 := by
      rw [int64Min] at hlow
      rw [int64Max] at hhigh
      rw [abs_lt]
      constructor
      · omega
      · omega
    exact Rounding.halfEven_roundTo (by omega) hdigits (by rw [decimalTiny]; omega)
  have hbounds := halfEven_div_bounds hlow hhigh hcount
  have hfits : (Rounding.halfEven (total / count : ℚ)).natAbs < 10 ^ decimalPrecision := by
    rw [int64Min, int64Max] at hbounds
    rw [decimalPrecision]
    omega
  rw [avgRound, if_neg (by omega), quantizeOne, hexact, if_pos hfits]

/-! ### Sums -/

variable {py : Python} {ops : JsonOps} {func : AggFunc} {field expression : String}

theorem checkedSum_eq_ok {n m : Int} :
    checkedSum py n field expression = .ok m ↔ m = n ∧ int64Min ≤ n ∧ n ≤ int64Max := by
  rw [checkedSum, checked]
  by_cases hrange : n < int64Min ∨ int64Max < n
  · rw [if_pos hrange]
    constructor
    · intro h
      cases h
    · rintro ⟨-, hlow, hhigh⟩
      omega
  · rw [if_neg hrange]
    dsimp only
    rw [Except.ok.injEq]
    constructor
    · intro h
      exact ⟨h.symm, by omega, by omega⟩
    · intro h
      exact h.1.symm

theorem inAggregate_eq_ok {α : Type} {x : Except MoneyFault α} {a : α} :
    inAggregate py expression x = .ok a ↔ x = .ok a := by
  cases x with
  | ok b => rw [inAggregate, Except.ok.injEq, Except.ok.injEq]
  | error fault =>
    cases fault with
    | money code message => exact iff_of_false nofun nofun
    | value message => exact iff_of_false nofun nofun

theorem addMoney_eq_ok {a b total : Pair} :
    addMoney a b = .ok total ↔ b.2 = a.2 ∧ total = (a.1 + b.1, a.2) := by
  rw [addMoney]
  by_cases hcode : a.2 = b.2
  · rw [if_neg (fun hne => hne hcode), Except.ok.injEq, eq_comm]
    simp only [hcode, true_and]
  · rw [if_pos hcode]
    exact iff_of_false nofun (fun h => hcode h.1.symm)

/-- Pairs are added up if they are of one currency. -/
theorem addAll_eq_ok {first total : Pair} {pairs : List Pair} :
    addAll py expression first pairs = .ok total ↔
      (∀ pair ∈ pairs, pair.2 = first.2) ∧
        total = (first.1 + (pairs.map Prod.fst).sum, first.2) := by
  induction pairs generalizing first with
  | nil =>
    rw [addAll, List.foldlM_nil, Lib.pure_eq_ok, eq_comm]
    simp only [List.not_mem_nil, false_implies, implies_true, List.map_nil, List.sum_nil, add_zero,
      true_and]
  | cons pair pairs ih =>
    rw [addAll, List.foldlM_cons, bind_eq_ok]
    change (∃ sum, _ ∧ addAll py expression sum pairs = .ok total) ↔ _
    simp only [inAggregate_eq_ok, addMoney_eq_ok, ih, List.forall_mem_cons, List.map_cons,
      List.sum_cons, ← add_assoc]
    constructor
    · rintro ⟨sum, ⟨hcode, rfl⟩, hcodes, htotal⟩
      exact ⟨⟨hcode, hcodes⟩, htotal⟩
    · rintro ⟨⟨hcode, hcodes⟩, htotal⟩
      exact ⟨_, ⟨hcode, rfl⟩, hcodes, htotal⟩

theorem foldlM_numbers_eq_ok {start : Int} :
    values.foldlM (fun total value => do
        let n ← wholeNumber py ops func.word field expression value
        checkedSum py (total + n) field expression) start = .ok total ↔
      ∃ ns, values.mapM (wholeNumber py ops func.word field expression) = .ok ns ∧
        PartialSums.SumsWithin int64Min int64Max start ns ∧ total = start + ns.sum := by
  induction values generalizing start with
  | nil =>
    rw [List.foldlM_nil, List.mapM_nil]
    simp only [Lib.pure_eq_ok]
    constructor
    · rintro rfl
      exact ⟨[], rfl, trivial, by rw [List.sum_nil, add_zero]⟩
    · rintro ⟨ns, rfl, -, htotal⟩
      rw [htotal, List.sum_nil, add_zero]
  | cons value values ih =>
    rw [List.foldlM_cons]
    simp only [bind_eq_ok, checkedSum_eq_ok, ih, List.mapM_cons, Lib.pure_eq_ok]
    constructor
    · rintro ⟨_, ⟨n, hn, rfl, hlow, hhigh⟩, ns, hns, hsums, rfl⟩
      refine ⟨n :: ns, ⟨n, hn, ns, hns, rfl⟩, ⟨⟨hlow, hhigh⟩, hsums⟩, ?_⟩
      rw [List.sum_cons, add_assoc]
    · rintro ⟨_, ⟨n, hn, ns, hns, rfl⟩, ⟨⟨hlow, hhigh⟩, hsums⟩, rfl⟩
      refine ⟨start + n, ⟨n, hn, rfl, hlow, hhigh⟩, ns, hns, hsums, ?_⟩
      rw [List.sum_cons, add_assoc]

/-- Numbers are added up if every sum on the way is in the range. -/
theorem addNumbers_eq_ok :
    addNumbers py ops func field expression values = .ok total ↔
      ∃ ns, values.mapM (wholeNumber py ops func.word field expression) = .ok ns ∧
        PartialSums.SumsWithin int64Min int64Max 0 ns ∧ total = ns.sum := by
  rw [addNumbers, foldlM_numbers_eq_ok]
  simp only [zero_add]

/-! ### The average of the values -/

/-- `n` is the average of `ns`. -/
structure IsAverage (ns : List Int) (n : Int) : Prop where
  nearest : Rounding.IsHalfEven (ns.sum / ns.length) n
  least : ∃ low ∈ ns, low ≤ n
  greatest : ∃ high ∈ ns, n ≤ high
  range : int64Min ≤ n ∧ n ≤ int64Max

theorem sum_scaled (ns : List Int) :
    (ns.map fun n => n * (ns.length : Int)).sum = (ns.map fun _ => ns.sum).sum := by
  rw [List.sum_map_mul_right, List.map_id', List.map_const', List.sum_replicate, nsmul_eq_mul,
    mul_comm]

/-- Some number is no more than the average. -/
theorem exists_le_average (hne : ns ≠ []) : ∃ low ∈ ns, (low : ℚ) ≤ ns.sum / ns.length := by
  have hlength : (0 : ℚ) < ns.length := by exact_mod_cast List.length_pos_of_ne_nil hne
  obtain ⟨low, hlow, hle⟩ := List.exists_le_of_sum_le hne _ _ (sum_scaled ns).le
  refine ⟨low, hlow, ?_⟩
  rw [le_div_iff₀ hlength]
  exact_mod_cast hle

/-- Some number is no less than the average. -/
theorem exists_average_le (hne : ns ≠ []) : ∃ high ∈ ns, (ns.sum / ns.length : ℚ) ≤ high := by
  have hlength : (0 : ℚ) < ns.length := by exact_mod_cast List.length_pos_of_ne_nil hne
  obtain ⟨high, hhigh, hle⟩ := List.exists_le_of_sum_le hne _ _ (sum_scaled ns).ge
  refine ⟨high, hhigh, ?_⟩
  rw [div_le_iff₀ hlength]
  exact_mod_cast hle

theorem isAverage_halfEven (hne : ns ≠ []) (hlow : int64Min ≤ ns.sum) (hhigh : ns.sum ≤ int64Max) :
    IsAverage ns (Rounding.halfEven (ns.sum / ns.length)) := by
  obtain ⟨low, hmem, hle⟩ := exists_le_average hne
  obtain ⟨high, hmem', hge⟩ := exists_average_le hne
  have hcount : (1 : Int) ≤ ns.length := by exact_mod_cast List.length_pos_of_ne_nil hne
  exact {
    nearest := Rounding.isHalfEven_halfEven _
    least := ⟨low, hmem, Rounding.le_halfEven hle⟩
    greatest := ⟨high, hmem', Rounding.halfEven_le hge⟩
    range := halfEven_div_bounds hlow hhigh hcount }

/-! ### Values -/

/-- Values of which the first is no object are added up as numbers. -/
theorem evalSumAvg_numbers {first : Json} (hfirst : ∀ fields, first ≠ .obj fields) :
    evalSumAvg py ops func (first :: rest) field expression aggFieldType = (do
      let total ← addNumbers py ops func field expression (first :: rest)
      if func = .sum then return .int total
      else return .int (← avgRound total (first :: rest).length)) := by
  cases first with
  | obj fields => exact absurd rfl (hfirst fields)
  | _ => rfl

/-- Values of which the first is an object are added up as money, if they all are. -/
theorem evalSumAvg_money_eq_ok {fields : List (String × Json)} {result : Json} :
    evalSumAvg py ops func (.obj fields :: rest) field expression aggFieldType = .ok result ↔
      ∃ pairs currency,
        (Json.obj fields :: rest).mapM (moneyPair py ops func.word field expression) = .ok pairs ∧
        (∀ pair ∈ pairs, pair.2 = currency) ∧
        (int64Min ≤ (pairs.map Prod.fst).sum ∧ (pairs.map Prod.fst).sum ≤ int64Max) ∧
        ∃ minor,
          (if func = .avg then avgRound (pairs.map Prod.fst).sum (rest.length + 1)
            else .ok (pairs.map Prod.fst).sum) = .ok minor ∧
          decodeMoney ops minor currency = .ok result := by
  rw [evalSumAvg]
  simp only [bind_eq_ok, addAll_eq_ok, checkedSum_eq_ok, inAggregate_eq_ok, List.mapM_cons,
    Lib.pure_eq_ok]
  constructor
  · rintro ⟨first, hfirst, pairs, hpairs, _, ⟨hcodes, rfl⟩, _, ⟨rfl, hrange⟩, minor, hminor,
      hresult⟩
    refine ⟨first :: pairs, first.2, ⟨first, hfirst, pairs, hpairs, rfl⟩, ?_, hrange, minor,
      hminor, hresult⟩
    rintro pair (_ | ⟨_, hpair⟩)
    · rfl
    · exact hcodes pair hpair
  · rintro ⟨_, currency, ⟨first, hfirst, pairs, hpairs, rfl⟩, hcodes, hrange, minor, hminor,
      hresult⟩
    rw [List.forall_mem_cons] at hcodes
    refine ⟨first, hfirst, pairs, hpairs, _, ⟨?_, rfl⟩, _, ⟨rfl, hrange⟩, minor, hminor, ?_⟩
    · intro pair hpair
      rw [hcodes.1]
      exact hcodes.2 pair hpair
    · rw [hcodes.1]
      exact hresult

/-- **Averages**: a total in the range, in any number of parts, gives the integer nearest to the
quotient, of two the even one; and what `avg` returns is the average of the values, or of their
minor units, between two of them and in the range. -/
theorem avg_nearest :
    (∀ total count : Int, int64Min ≤ total → total ≤ int64Max → 1 ≤ count →
      ∃ n, avgRound total count = .ok n ∧ Rounding.IsHalfEven (total / count) n) ∧
    ∀ (py : Python) (ops : JsonOps) (values : List Json) (field expression : String)
      (aggFieldType : Option String) (result : Json),
      evalSumAvg py ops .avg values field expression aggFieldType = .ok result →
        (∃ ns n, values.mapM (wholeNumber py ops AggFunc.avg.word field expression) = .ok ns ∧
          result = .int n ∧ IsAverage ns n) ∨
        ∃ pairs currency n,
          values.mapM (moneyPair py ops AggFunc.avg.word field expression) = .ok pairs ∧
          (∀ pair ∈ pairs, pair.2 = currency) ∧ decodeMoney ops n currency = .ok result ∧
          IsAverage (pairs.map Prod.fst) n := by
  constructor
  · intro total count hlow hhigh hcount
    exact ⟨_, avgRound_eq hlow hhigh hcount, Rounding.isHalfEven_halfEven _⟩
  · intro py ops values field expression aggFieldType result h
    cases values with
    | nil => cases h
    | cons first rest =>
      by_cases hobj : ∃ fields, first = .obj fields
      · obtain ⟨fields, rfl⟩ := hobj
        right
        obtain ⟨pairs, currency, hpairs, hcodes, hrange, minor, hminor, hresult⟩ :=
          evalSumAvg_money_eq_ok.mp h
        have hlength := (mapM_eq_ok.mp hpairs).length_eq.symm
        have hne : pairs.map Prod.fst ≠ [] := by
          rintro hnil
          rw [List.map_eq_nil_iff] at hnil
          rw [hnil] at hlength
          cases hlength
        have hcount : ((rest.length : Int) + 1) = (pairs.map Prod.fst).length := by
          rw [List.length_map, hlength]
          rfl
        rw [if_pos rfl, hcount, avgRound_eq hrange.1 hrange.2 (by omega),
          Except.ok.injEq] at hminor
        refine ⟨pairs, currency, minor, hpairs, hcodes, hresult, ?_⟩
        rw [← hminor]
        exact isAverage_halfEven hne hrange.1 hrange.2
      · left
        rw [evalSumAvg_numbers (fun fields hfields => hobj ⟨fields, hfields⟩)] at h
        obtain ⟨total, htotal, haverage⟩ := bind_eq_ok.mp h
        rw [if_neg nofun] at haverage
        obtain ⟨n, hn, hresult⟩ := bind_eq_ok.mp haverage
        obtain ⟨ns, hns, hsums, rfl⟩ := addNumbers_eq_ok.mp htotal
        have hrange := hsums.sum (by decide)
        rw [zero_add] at hrange
        have hlength := (mapM_eq_ok.mp hns).length_eq.symm
        have hne : ns ≠ [] := by
          rintro rfl
          cases hlength
        rw [← hlength, avgRound_eq hrange.1 hrange.2 (by rw [hlength]; simp), Except.ok.injEq] at hn
        refine ⟨ns, n, hns, ?_, ?_⟩
        · cases hresult
          rfl
        · rw [← hn]
          exact isAverage_halfEven hne hrange.1 hrange.2

end Lnpl.Interp
