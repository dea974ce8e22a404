import Mathlib.Algebra.BigOperators.Intervals
import Mathlib.Algebra.Order.BigOperators.Group.Finset
import Mathlib.Data.Prod.Lex

/-!
# The Gregorian calendar

Dates by their year, month and day, and the number of a date in the row of all days from the first
of January of the year 1 on.  `Date.ordinal` counts that row by whole years and whole months, it
orders dates as their fields do (`ordinal_lt_iff`), and `daysBeforeYear_eq` is its closed form for
the years.
-/

namespace Lnpl.Lib.Calendar

/-! ### Years and months -/

def IsLeap (year : ℕ) : Prop := 4 ∣ year ∧ (¬ 100 ∣ year ∨ 400 ∣ year)

instance (year : ℕ) : Decidable (IsLeap year) := inferInstanceAs (Decidable (_ ∧ _))

def yearLength (year : ℕ) : ℕ := if IsLeap year then 366 else 365

/-- The days of a month; what is no month has none. -/
def monthLength (year : ℕ) : ℕ → ℕ
  | 2 => if IsLeap year then 29 else 28
  | 4 | 6 | 9 | 11 => 30
  | 1 | 3 | 5 | 7 | 8 | 10 | 12 => 31
  | _ => 0

/-- The days of the years before a year, from the year 1 on. -/
def daysBeforeYear (year : ℕ) : ℕ := ∑ y ∈ Finset.Ico 1 year, yearLength y

/-- The days of the months of a year before a month. -/
def daysBeforeMonth (year month : ℕ) : ℕ := ∑ m ∈ Finset.Ico 1 month, monthLength year m

theorem daysBeforeYear_succ {year : ℕ} (h : 1 ≤ year) :
    daysBeforeYear (year + 1) = daysBeforeYear year + yearLength year :=
  Finset.sum_Ico_succ_top h yearLength

theorem daysBeforeMonth_succ (year : ℕ) {month : ℕ} (h : 1 ≤ month) :
    daysBeforeMonth year (month + 1) = daysBeforeMonth year month + monthLength year month :=
  Finset.sum_Ico_succ_top h (monthLength year)

/-- The months make up the year. -/
theorem daysBeforeMonth_thirteen (year : ℕ) : daysBeforeMonth year 13 = yearLength year := by
  by_cases h : IsLeap year <;> simp [daysBeforeMonth, Finset.sum_Ico_eq_sum_range,
    Finset.sum_range_succ, monthLength, yearLength, h]

/-- Four years have a leap day, but not the hundredth, save the four hundredth. -/
theorem daysBeforeYear_eq (year : ℕ) :
    daysBeforeYear (year + 1) = year * 365 + year / 4 - year / 100 + year / 400 := by
  induction year with
  | zero => rfl
  | succ year ih =>
    rw [daysBeforeYear_succ (Nat.le_add_left 1 year), ih, yearLength]
    split_ifs with h <;> unfold IsLeap at h <;> omega

variable {a b c : ℕ}

theorem daysBeforeYear_mono (h : a ≤ b) : daysBeforeYear a ≤ daysBeforeYear b :=
  Finset.sum_le_sum_of_subset (Finset.Ico_subset_Ico_right h)

theorem daysBeforeMonth_mono (year : ℕ) (h : a ≤ b) :
    daysBeforeMonth year a ≤ daysBeforeMonth year b :=
  Finset.sum_le_sum_of_subset (Finset.Ico_subset_Ico_right h)

/-! ### Dates -/

/-- A date that exists: the day is one of its month, in its year. -/
@[ext] structure Date where
  year : ℕ
  month : ℕ
  day : ℕ
  year_pos : 1 ≤ year
  month_pos : 1 ≤ month
  month_le : month ≤ 12
  day_pos : 1 ≤ day
  day_le : day ≤ monthLength year month
  deriving DecidableEq

namespace Date

/-- The number of a date; the first of January of the year 1 has the number one. -/
def ordinal (d : Date) : ℕ := daysBeforeYear d.year + daysBeforeMonth d.year d.month + d.day

theorem ordinal_mk {year month day : ℕ} (hyear : 1 ≤ year) (hmonth : 1 ≤ month)
    (hmonth' : month ≤ 12) (hday : 1 ≤ day) (hday' : day ≤ monthLength year month) :
    (mk year month day hyear hmonth hmonth' hday hday').ordinal =
      daysBeforeYear year + daysBeforeMonth year month + day := rfl

/-- The first of January of 1970. -/
def epoch : Date where
  year := 1970
  month := 1
  day := 1
  year_pos := by decide
  month_pos := by decide
  month_le := by decide
  day_pos := by decide
  day_le := by decide

theorem ordinal_epoch : epoch.ordinal = 719163 := by
  have hyear : daysBeforeYear 1970 = 719162 := daysBeforeYear_eq 1969
  have hmonth : daysBeforeMonth 1970 1 = 0 := rfl
  rw [epoch, ordinal_mk, hyear, hmonth]

/-- A date is within its month. -/
theorem ordinal_le_month (d : Date) :
    d.ordinal ≤ daysBeforeYear d.year + daysBeforeMonth d.year (d.month + 1) := by
  have h := daysBeforeMonth_succ d.year d.month_pos
  have hday := d.day_le
  rw [ordinal]
  omega

/-- A date is within its year. -/
theorem ordinal_le_year (d : Date) : d.ordinal ≤ daysBeforeYear (d.year + 1) := by
  have hmonth := daysBeforeMonth_mono d.year (Nat.add_le_add_right d.month_le 1)
  rw [daysBeforeMonth_thirteen] at hmonth
  have h := d.ordinal_le_month
  rw [daysBeforeYear_succ d.year_pos]
  omega

/-- The fields of a date, the year first. -/
def fields (d : Date) : ℕ ×ₗ ℕ ×ₗ ℕ := toLex (d.year, toLex (d.month, d.day))

variable {d e : Date}

theorem fields_lt_iff : d.fields < e.fields ↔ d.year < e.year ∨ d.year = e.year ∧
    (d.month < e.month ∨ d.month = e.month ∧ d.day < e.day) := by
  rw [fields, fields, Prod.Lex.toLex_lt_toLex, Prod.Lex.toLex_lt_toLex]

theorem ordinal_lt_of_fields_lt (h : d.fields < e.fields) : d.ordinal < e.ordinal := by
  have hpos := e.day_pos
  rcases fields_lt_iff.mp h with hyear | ⟨hyear, hmonth | ⟨hmonth, hday⟩⟩
  · have hd := d.ordinal_le_year
    have he := daysBeforeYear_mono (Nat.succ_le_of_lt hyear)
    simp only [Nat.succ_eq_add_one] at he
    simp only [ordinal] at hd ⊢
    omega
  · have hd := d.ordinal_le_month
    have he := daysBeforeMonth_mono e.year (Nat.succ_le_of_lt hmonth)
    simp only [Nat.succ_eq_add_one] at he
    simp only [ordinal, hyear] at hd ⊢
    omega
  · rw [ordinal, ordinal, hyear, hmonth]
    omega

theorem eq_of_fields_eq (h : d.fields = e.fields) : d = e := by
  simp only [fields, toLex_inj, Prod.mk.injEq] at h
  exact Date.ext h.1 h.2.1 h.2.2

/-- **The numbers of two dates stand as their fields do.** -/
theorem ordinal_lt_iff : d.ordinal < e.ordinal ↔ d.fields < e.fields := by
  constructor
  · intro h
    rcases lt_trichotomy d.fields e.fields with hlt | heq | hgt
    · exact hlt
    · rw [eq_of_fields_eq heq] at h
      exact absurd h (lt_irrefl _)
    · exact absurd (ordinal_lt_of_fields_lt hgt) (Nat.lt_asymm h)
  · exact ordinal_lt_of_fields_lt

theorem ordinal_injective : Function.Injective ordinal := by
  intro d e h
  rcases lt_trichotomy d.fields e.fields with hlt | heq | hgt
  · exact absurd (ordinal_lt_of_fields_lt hlt) (by omega)
  · exact eq_of_fields_eq heq
  · exact absurd (ordinal_lt_of_fields_lt hgt) (by omega)

end Date

/-! ### The date of a number -/

/-- The years that are over on a day, by the days in front of it: spans of 400 years, of 100, of 4
and of one, of which the last may be a day longer. -/
def yearsBefore (n : ℕ) : ℕ :=
  let centuries := min 3 (n % 146097 / 36524)
  let rest := n % 146097 - centuries * 36524
  n / 146097 * 400 + centuries * 100 + rest / 1461 * 4 + min 3 (rest % 1461 / 365)

/-- The days of whole spans of years. -/
theorem daysBeforeYear_spans (a : ℕ) {d : ℕ} (hb : b ≤ 3) (hc : c ≤ 24) (hd : d ≤ 3) :
    daysBeforeYear (a * 400 + b * 100 + c * 4 + d + 1) =
      a * 146097 + b * 36524 + c * 1461 + d * 365 := by
  have hfour : (a * 400 + b * 100 + c * 4 + d) / 4 = a * 100 + b * 25 + c := by omega
  have hhundred : (a * 400 + b * 100 + c * 4 + d) / 100 = a * 4 + b := by omega
  have hfourHundred : (a * 400 + b * 100 + c * 4 + d) / 400 = a := by omega
  rw [daysBeforeYear_eq, hfour, hhundred, hfourHundred]
  omega

theorem yearLength_ge (year : ℕ) : 365 ≤ yearLength year := by
  rw [yearLength]
  split_ifs
  · decide
  · exact le_refl 365

/-- The last year of four is a leap year, save at the end of a century that is not the fourth. -/
theorem yearLength_spans (a : ℕ) (hb : b ≤ 3) (hc : c ≤ 24) (h : c < 24 ∨ b = 3) :
    yearLength (a * 400 + b * 100 + c * 4 + 3 + 1) = 366 := by
  rw [yearLength, if_pos]
  refine ⟨⟨a * 100 + b * 25 + c + 1, by omega⟩, ?_⟩
  by_cases hspan : c < 24
  · left
    omega
  · right
    exact ⟨a + 1, by omega⟩

/-- The spans of a day, by the days in front of it. -/
theorem yearsBefore_spans (n : ℕ) : ∃ a b c d t, b ≤ 3 ∧ c ≤ 24 ∧ d ≤ 3 ∧
    yearsBefore n = a * 400 + b * 100 + c * 4 + d ∧
    n = a * 146097 + b * 36524 + c * 1461 + d * 365 + t ∧
    (t < 365 ∨ t = 365 ∧ d = 3 ∧ (c < 24 ∨ b = 3)) := by
  refine ⟨n / 146097, min 3 (n % 146097 / 36524),
    (n % 146097 - min 3 (n % 146097 / 36524) * 36524) / 1461,
    min 3 ((n % 146097 - min 3 (n % 146097 / 36524) * 36524) % 1461 / 365),
    (n % 146097 - min 3 (n % 146097 / 36524) * 36524) % 1461 -
      min 3 ((n % 146097 - min 3 (n % 146097 / 36524) * 36524) % 1461 / 365) * 365,
    min_le_left _ _, ?_, min_le_left _ _, rfl, ?_, ?_⟩
  · omega
  · omega
  · omega

/-- A day is in the year behind those that are over. -/
theorem yearsBefore_spec (n : ℕ) :
    daysBeforeYear (yearsBefore n + 1) ≤ n ∧ n < daysBeforeYear (yearsBefore n + 2) := by
  obtain ⟨a, b, c, d, t, hb, hc, hd, hyears, hn, ht⟩ := yearsBefore_spans n
  have hdays := daysBeforeYear_spans a hb hc hd
  have hnext := daysBeforeYear_succ (Nat.le_add_left 1 (a * 400 + b * 100 + c * 4 + d))
  rw [hdays] at hnext
  rw [hyears, hdays, hnext]
  have hlength := yearLength_ge (a * 400 + b * 100 + c * 4 + d + 1)
  rcases ht with ht | ⟨ht, rfl, hleap⟩
  · exact ⟨by omega, by omega⟩
  · rw [yearLength_spans a hb hc hleap]
    exact ⟨by omega, by omega⟩

/-- The month of a day and the day in it, by the days in front of it from a month on. -/
def splitMonths (year : ℕ) : ℕ → ℕ → ℕ → ℕ × ℕ
  | 0, month, n => (month, n + 1)
  | k + 1, month, n =>
    if n < monthLength year month then (month, n + 1)
    else splitMonths year k (month + 1) (n - monthLength year month)

theorem splitMonths_spec (year : ℕ) {k month n : ℕ} (hmonth : 1 ≤ month)
    (hn : daysBeforeMonth year month + n < daysBeforeMonth year (month + k + 1)) :
    month ≤ (splitMonths year k month n).1 ∧ (splitMonths year k month n).1 ≤ month + k ∧
      1 ≤ (splitMonths year k month n).2 ∧
      (splitMonths year k month n).2 ≤ monthLength year (splitMonths year k month n).1 ∧
      daysBeforeMonth year (splitMonths year k month n).1 + (splitMonths year k month n).2 =
        daysBeforeMonth year month + n + 1 := by
  induction k generalizing month n with
  | zero =>
    rw [Nat.add_zero, daysBeforeMonth_succ year hmonth] at hn
    rw [splitMonths]
    dsimp only
    omega
  | succ k ih =>
    rw [splitMonths]
    split_ifs with hlt
    · dsimp only
      omega
    · have hnext := daysBeforeMonth_succ year hmonth
      have hend : month + 1 + k + 1 = month + (k + 1) + 1 := by omega
      obtain ⟨hfrom, hto, hpos, hle, heq⟩ := @ih (month + 1) (n - monthLength year month)
        (by omega) (by rw [hend]; omega)
      exact ⟨by omega, by omega, hpos, hle, by omega⟩

/-- The month of a day and the day in it, by the days in front of it. -/
def monthAndDay (n : ℕ) : ℕ × ℕ :=
  splitMonths (yearsBefore n + 1) 11 1 (n - daysBeforeYear (yearsBefore n + 1))

theorem monthAndDay_spec (n : ℕ) :
    1 ≤ (monthAndDay n).1 ∧ (monthAndDay n).1 ≤ 12 ∧ 1 ≤ (monthAndDay n).2 ∧
      (monthAndDay n).2 ≤ monthLength (yearsBefore n + 1) (monthAndDay n).1 ∧
      daysBeforeYear (yearsBefore n + 1) +
        daysBeforeMonth (yearsBefore n + 1) (monthAndDay n).1 + (monthAndDay n).2 = n + 1 := by
  obtain ⟨hfrom, hto⟩ := yearsBefore_spec n
  have hlength : daysBeforeYear (yearsBefore n + 2) =
      daysBeforeYear (yearsBefore n + 1) + yearLength (yearsBefore n + 1) :=
    daysBeforeYear_succ (Nat.le_add_left 1 (yearsBefore n))
  have hzero : daysBeforeMonth (yearsBefore n + 1) 1 = 0 := rfl
  have hmonths := daysBeforeMonth_thirteen (yearsBefore n + 1)
  obtain ⟨hpos, hle, hday, hdays, heq⟩ := @splitMonths_spec (yearsBefore n + 1) 11 1
    (n - daysBeforeYear (yearsBefore n + 1)) (le_refl 1) (by rw [hzero, hmonths]; omega)
  rw [← monthAndDay] at hpos hle hday hdays heq
  exact ⟨hpos, hle, hday, hdays, by omega⟩

namespace Date

/-- The date of a number, from one on. -/
def ofOrdinal (n : ℕ) : Date where
  year := yearsBefore (n - 1) + 1
  month := (monthAndDay (n - 1)).1
  day := (monthAndDay (n - 1)).2
  year_pos := Nat.le_add_left 1 _
  month_pos := (monthAndDay_spec (n - 1)).1
  month_le := (monthAndDay_spec (n - 1)).2.1
  day_pos := (monthAndDay_spec (n - 1)).2.2.1
  day_le := (monthAndDay_spec (n - 1)).2.2.2.1

/-- **The date of a number** has the number. -/
theorem ordinal_ofOrdinal {n : ℕ} (h : 1 ≤ n) : (ofOrdinal n).ordinal = n := by
  rw [ofOrdinal, ordinal_mk, (monthAndDay_spec (n - 1)).2.2.2.2]
  exact Nat.sub_add_cancel h

theorem ofOrdinal_ordinal (d : Date) : ofOrdinal d.ordinal = d := by
  have hpos : 1 ≤ d.ordinal := Nat.le_trans d.day_pos (Nat.le_add_left _ _)
  exact ordinal_injective (ordinal_ofOrdinal hpos)

end Date

end Lnpl.Lib.Calendar
