import Lnpl.Front.Equiv.Lexer
import Lnpl.Interp.Equiv.Instants
import Lnpl.Interp.Plain

/-!
# Correctness of `decodeInstant`

The text of an instant is a timestamp that names it (`seconds_decodedTimestamp`), so that
`encode_instant` reads it back; and what is decoded of a timestamp that was encoded names its
instant, cut off to the millisecond (`instant_codec`).
-/

namespace Lnpl.Interp

open Front (Python)
open Lib.Calendar (Date daysBeforeYear_eq)

/-! ### Padded numbers -/

theorem isDigit_of_mem_zeroPadded {width n : ℕ} {ch : Char} (h : ch ∈ zeroPadded width n) :
    ch.isDigit = true := by
  rcases List.mem_append.mp h with h | h
  · rw [List.eq_of_mem_replicate h]
    rfl
  · exact Front.isDigit_of_mem_toDigits h

theorem digitRow_zeroPadded {width n : ℕ} (hwidth : 0 < width) (h : n < 10 ^ width) :
    DigitRow (fun ch => ch.isDigit) width (zeroPadded width n) := by
  refine ⟨?_, fun ch hch => isDigit_of_mem_zeroPadded hch⟩
  have hlength := (@Nat.length_toDigits_le_iff 10 n width (by decide) hwidth).mpr h
  rw [zeroPadded, List.length_append, List.length_replicate]
  omega

theorem numberIn_zeroPadded (width n : ℕ) : numberIn asciiValue (zeroPadded width n) = n := by
  have hzeros : ∀ k chars, numberIn asciiValue (List.replicate k '0' ++ chars) =
      numberIn asciiValue chars := by
    intro k chars
    induction k with
    | zero => rfl
    | succ k ih =>
      have hzero : asciiValue '0' = 0 := rfl
      rw [List.replicate_succ, List.cons_append, numberIn_cons, hzero, Nat.zero_mul, Nat.zero_add,
        ih]
  rw [zeroPadded, hzeros, numberIn_asciiValue, Nat.ofDigitChars_ten_toDigits]

/-! ### The timestamp of an instant -/

/-- The parts of the text of an instant. -/
def decodedLayout (date : Date) (time : ℕ) : Layout where
  year := zeroPadded 4 date.year
  month := zeroPadded 2 date.month
  day := zeroPadded 2 date.day
  separator := 'T'
  hour := zeroPadded 2 (time / 3600000)
  minute := zeroPadded 2 (time / 60000 % 60)
  second := zeroPadded 2 (time / 1000 % 60)
  fraction := zeroPadded 3 (time % 1000)
  zone := .utc 'Z'
  newline := false

theorem decodedLayout_text (date : Date) (time : ℕ) :
    (decodedLayout date time).text = instantText date time := by
  have hfraction : zeroPadded 3 (time % 1000) ≠ [] := by
    have hlength := (@digitRow_zeroPadded 3 (time % 1000) (by decide) (by omega)).1
    rintro hnil
    rw [hnil] at hlength
    cases hlength
  rw [Layout.text, Layout.fractionText, decodedLayout, if_neg hfraction]
  rfl

variable {date : Date} {time : ℕ}

theorem decodedLayout_fits (hyear : date.year ≤ 9999) (htime : time < dayMillis) :
    (decodedLayout date time).Fits fun ch => ch.isDigit := by
  have hmonth := date.month_le
  have hday : date.day ≤ 31 := by
    have hle := date.day_le
    unfold Lib.Calendar.monthLength at hle
    split at hle <;> (try split at hle) <;> omega
  rw [dayMillis] at htime
  exact {
    year := digitRow_zeroPadded (by decide) (by omega)
    month := digitRow_zeroPadded (by decide) (by omega)
    day := digitRow_zeroPadded (by decide) (by omega)
    separator := .inl rfl
    hour := digitRow_zeroPadded (by decide) (by omega)
    minute := digitRow_zeroPadded (by decide) (by omega)
    second := digitRow_zeroPadded (by decide) (by omega)
    fraction := fun ch hch => isDigit_of_mem_zeroPadded hch
    zone := .inl rfl }

/-- The numbers of the text of an instant. -/
theorem decodedLayout_reading (date : Date) (time : ℕ) :
    (decodedLayout date time).reading asciiValue =
      { stamp := ⟨date.year, date.month, date.day, time / 3600000, time / 60000 % 60,
          time / 1000 % 60⟩
        fraction := (zeroPadded 3 (time % 1000)).map asciiValue
        ahead := true
        hours := 0
        minutes := 0 } := by
  simp only [Layout.reading, decodedLayout, numberIn_zeroPadded]

/-- The text of an instant is a timestamp. -/
def decodedTimestamp (date : Date) (time : ℕ) (hyear : date.year ≤ 9999)
    (htime : time < dayMillis) : Timestamp where
  layout := decodedLayout date time
  fits := decodedLayout_fits hyear htime
  ends := rfl
  real := by
    rw [dayMillis] at htime
    rw [decodedLayout_reading]
    exact {
      year := date.year_pos
      month_pos := date.month_pos
      month_le := date.month_le
      day_pos := date.day_pos
      day_le := date.day_le
      hour := by dsimp only; omega
      minute := by dsimp only; omega
      second := by dsimp only; omega
      hours := by dsimp only; omega
      minutes := by dsimp only; omega }

/-- **The instant of its text.** -/
theorem seconds_decodedTimestamp (hyear : date.year ≤ 9999) (htime : time < dayMillis) :
    1000 * (decodedTimestamp date time hyear htime).seconds =
      (((date.ordinal : ℤ) - Date.epoch.ordinal) * dayMillis + time : ℤ) := by
  have hreading : (decodedTimestamp date time hyear htime).reading = _ :=
    decodedLayout_reading date time
  have hfraction : numberOf ((zeroPadded 3 (time % 1000)).map asciiValue) = time % 1000 :=
    numberIn_zeroPadded 3 (time % 1000)
  have hlength : ((zeroPadded 3 (time % 1000)).map asciiValue).length = 3 := by
    rw [List.length_map]
    exact (@digitRow_zeroPadded 3 (time % 1000) (by decide) (by omega)).1
  have hclock : ((time / 3600000 * 3600 + time / 60000 % 60 * 60 + time / 1000 % 60) * 1000 +
      time % 1000 : ℕ) = time := by omega
  have hclock' : (((time / 3600000 : ℕ) * 3600 + (time / 60000 % 60 : ℕ) * 60 +
      (time / 1000 % 60 : ℕ)) * 1000 + (time % 1000 : ℕ) : ℚ) = time := by exact_mod_cast hclock
  rw [Timestamp.seconds_eq, hreading, Reading.seconds, Reading.offset, hfraction, hlength,
    dayMillis]
  dsimp only
  rw [← Date.ordinal, if_pos rfl]
  push_cast at hclock' ⊢
  linarith

/-! ### The codec -/

/-- The text is a real date-time, and names the instant of so many seconds since the epoch. -/
def Names (py : Python) (text : String) (seconds : ℚ) : Prop :=
  ∃ l : Layout, l.text = text.toList ∧ l.Fits (IsDecimal py) ∧
    (l.reading (decimalValue py)).Real ∧ (l.reading (decimalValue py)).seconds = seconds

/-- The milliseconds of some time of a day of the years from 1 to 9999. -/
def InYears (ms : ℤ) : Prop :=
  ∃ date : Date, date.year ≤ 9999 ∧ ∃ time : ℕ, time < dayMillis ∧
    ms = ((date.ordinal : ℤ) - Date.epoch.ordinal) * dayMillis + time

theorem ordinal_le_maxOrdinal (hyear : date.year ≤ 9999) : (date.ordinal : ℤ) ≤ maxOrdinal := by
  have hle := date.ordinal_le_year
  have hmono := Lib.Calendar.daysBeforeYear_mono (Nat.add_le_add_right hyear 1)
  rw [daysBeforeYear_eq 9999] at hmono
  rw [maxOrdinal]
  omega

/-- `decode_instant` writes the timestamp of the instant. -/
theorem decodeInstant_eq (ops : JsonOps) (hyear : date.year ≤ 9999) (htime : time < dayMillis) :
    decodeInstant ops (.int (((date.ordinal : ℤ) - Date.epoch.ordinal) * dayMillis + time)) =
      .ok (decodedTimestamp date time hyear htime).text := by
  have hmax := ordinal_le_maxOrdinal hyear
  have hpos : 1 ≤ date.ordinal := Nat.le_trans date.day_pos (Nat.le_add_left _ _)
  have hday : epochOrdinal +
      (((date.ordinal : ℤ) - Date.epoch.ordinal) * dayMillis + time) / dayMillis =
        date.ordinal := by
    rw [Date.ordinal_epoch, epochOrdinal]
    rw [dayMillis] at htime ⊢
    omega
  have htimeOfDay : ((((date.ordinal : ℤ) - Date.epoch.ordinal) * dayMillis + time) %
      dayMillis).toNat = time := by
    rw [dayMillis] at htime ⊢
    omega
  rw [decodeInstant, hday, if_pos ⟨by omega, hmax⟩, htimeOfDay, Int.toNat_natCast,
    Date.ofOrdinal_ordinal,
    Timestamp.text]
  exact congrArg (fun text => Except.ok (String.ofList text)) (decodedLayout_text date time).symm

variable {py : Python}

theorem names_text (t : Timestamp) : Names py t.text t.seconds := by
  have hreading : t.layout.reading (decimalValue py) = t.reading := reading_ascii t.fits
  refine ⟨t.layout, by rw [Timestamp.text, String.toList_ofList],
    t.fits.mono fun _ => isDecimal_of_isDigit, ?_, ?_⟩
  · rw [hreading]
    exact t.real
  · rw [hreading, t.seconds_eq]

/-- A real date-time is encoded to its milliseconds. -/
theorem encodeInstant_of_names (hpy : DecimalDigits py) {text place : String} {seconds : ℚ}
    (h : Names py text seconds) : encodeInstant py text place = .ok ⌊1000 * seconds⌋ := by
  obtain ⟨l, htext, hfits, hreal, rfl⟩ := h
  have hraw : text = String.ofList l.text := by rw [htext, String.ofList_toList]
  rw [hraw]
  apply (encodeInstant_text hpy hfits place _).mpr
  exact ⟨hreal.checked, (Reading.floor_seconds hreal (fraction_lt_ten hpy hfits)).symm⟩

/-- **The instant codec**: what is decoded of the milliseconds of an instant in the years from 1 to
9999 is encoded to them, and what is decoded of a real date-time that was encoded names its instant,
cut off to the millisecond. -/
theorem instant_codec (py : Python) (ops : JsonOps) (hpy : DecimalDigits py) :
    (∀ ms place, InYears ms →
      ∃ text, decodeInstant ops (.int ms) = .ok text ∧ encodeInstant py text place = .ok ms) ∧
    ∀ text seconds place ms, Names py text seconds → encodeInstant py text place = .ok ms →
      InYears ms → ∃ decoded, decodeInstant ops (.int ms) = .ok decoded ∧
        Names py decoded (⌊1000 * seconds⌋ / 1000) := by
  constructor
  · rintro ms place ⟨date, hyear, time, htime, hms⟩
    rw [hms]
    refine ⟨_, decodeInstant_eq ops hyear htime, ?_⟩
    have hnames := @names_text py (decodedTimestamp date time hyear htime)
    rw [encodeInstant_of_names hpy hnames, seconds_decodedTimestamp, Int.floor_intCast]
  · rintro text seconds place ms hnames hencode ⟨date, hyear, time, htime, hms⟩
    rw [hms] at hencode ⊢
    rw [encodeInstant_of_names hpy hnames, Except.ok.injEq] at hencode
    refine ⟨_, decodeInstant_eq ops hyear htime, ?_⟩
    have hseconds : (⌊1000 * seconds⌋ : ℚ) / 1000 =
        (decodedTimestamp date time hyear htime).seconds := by
      rw [hencode, ← seconds_decodedTimestamp hyear htime]
      ring
    rw [hseconds]
    exact names_text _

theorem instant_codec_ascii :
    DecimalDigits .ascii ∧ ∃ text,
      decodeInstant ⟨Json.plainStr, Json.plainStr, Json.plainEq⟩ (.int 0) = .ok text ∧
        encodeInstant .ascii text "at" = .ok 0 :=
  ⟨decimalDigits_ascii,
    (instant_codec .ascii ⟨Json.plainStr, Json.plainStr, Json.plainEq⟩ decimalDigits_ascii).1 0 "at"
      ⟨Date.epoch, by decide, 0, by decide, by rw [sub_self]; rfl⟩⟩

end Lnpl.Interp
