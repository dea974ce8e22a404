import Mathlib.Data.Rat.Floor
import Lnpl.Interp.Instants
import Lnpl.Lib.Calendar

/-!
# Timestamps

What `encode_instant` is for: a zoned timestamp names an instant, and its value is the instant's
number of milliseconds since the epoch.  A `Layout` is a text of the shape of a timestamp by its
parts, a `Timestamp` one that is written in ASCII and whose date, clock and offset exist.  `Exact`
says that `encode_instant` accepts a text iff it is a timestamp, and with the value of it, and
`Misread` names the texts that it accepts without that.
-/

namespace Lnpl.Interp

open Front (Python)
open Lib.Calendar (Date daysBeforeMonth daysBeforeYear monthLength)

/-! ### The parts of a text -/

/-- The zone designator: `Z`, or a sign with the hours and the minutes, a colon between or none. -/
inductive Zone where
  | utc (mark : Char)
  | offset (sign : Char) (hours : List Char) (colon : Bool) (minutes : List Char)

def Zone.text : Zone → List Char
  | utc mark => [mark]
  | offset sign hours colon minutes =>
    sign :: (hours ++ ((if colon then [':'] else []) ++ minutes))

/-- The parts of a text of the shape of a zoned timestamp; a fraction without digits is none. -/
structure Layout where
  year : List Char
  month : List Char
  day : List Char
  separator : Char
  hour : List Char
  minute : List Char
  second : List Char
  fraction : List Char
  zone : Zone
  /-- a newline behind the zone designator -/
  newline : Bool

namespace Layout

def fractionText (l : Layout) : List Char := if l.fraction = [] then [] else '.' :: l.fraction

def text (l : Layout) : List Char :=
  l.year ++ '-' :: (l.month ++ '-' :: (l.day ++ l.separator :: (l.hour ++ ':' :: (l.minute ++
    ':' :: (l.second ++ (l.fractionText ++ (l.zone.text ++ if l.newline then ['\n'] else [])))))))

end Layout

/-- `n` digits. -/
def DigitRow (digit : Char → Prop) (n : ℕ) (chars : List Char) : Prop :=
  chars.length = n ∧ ∀ ch ∈ chars, digit ch

def Zone.Fits (digit : Char → Prop) : Zone → Prop
  | utc mark => mark = 'Z' ∨ mark = 'z'
  | offset sign hours _ minutes =>
    (sign = '+' ∨ sign = '-') ∧ DigitRow digit 2 hours ∧ DigitRow digit 2 minutes

/-- Every part of a text is as long as it has to be, and made of what is a digit. -/
structure Layout.Fits (digit : Char → Prop) (l : Layout) : Prop where
  year : DigitRow digit 4 l.year
  month : DigitRow digit 2 l.month
  day : DigitRow digit 2 l.day
  separator : l.separator = 'T' ∨ l.separator = 't' ∨ l.separator = ' '
  hour : DigitRow digit 2 l.hour
  minute : DigitRow digit 2 l.minute
  second : DigitRow digit 2 l.second
  fraction : ∀ ch ∈ l.fraction, digit ch
  zone : l.zone.Fits digit

/-! ### What the parts write -/

/-- The numbers of a timestamp; `ahead` of UTC by its offset, or behind it. -/
structure Reading where
  stamp : Stamp
  fraction : List ℕ
  ahead : Bool
  hours : ℕ
  minutes : ℕ

/-- The number that some characters write, by the values of its digits. -/
def numberIn (value : Char → ℕ) (chars : List Char) : ℕ := numberOf (chars.map value)

def Layout.reading (value : Char → ℕ) (l : Layout) : Reading where
  stamp :=
    ⟨numberIn value l.year, numberIn value l.month, numberIn value l.day, numberIn value l.hour,
      numberIn value l.minute, numberIn value l.second⟩
  fraction := l.fraction.map value
  ahead :=
    match l.zone with
    | .utc _ => true
    | .offset sign _ _ _ => sign = '+'
  hours :=
    match l.zone with
    | .utc _ => 0
    | .offset _ hours _ _ => numberIn value hours
  minutes :=
    match l.zone with
    | .utc _ => 0
    | .offset _ _ _ minutes => numberIn value minutes

namespace Reading

/-- The range checks of `encode_instant`, and those of `timegm`. -/
structure Checked (r : Reading) : Prop where
  year : 1 ≤ r.stamp.year
  month_pos : 1 ≤ r.stamp.month
  month_le : r.stamp.month ≤ 12
  day_pos : 1 ≤ r.stamp.day
  day_le : r.stamp.day ≤ 31
  hour : r.stamp.hour ≤ 23
  minute : r.stamp.minute ≤ 59
  second : r.stamp.second ≤ 60

/-- The date, the clock and the offset exist; the years count from 1, and there may be a second
60. -/
structure Real (r : Reading) : Prop where
  year : 1 ≤ r.stamp.year
  month_pos : 1 ≤ r.stamp.month
  month_le : r.stamp.month ≤ 12
  day_pos : 1 ≤ r.stamp.day
  day_le : r.stamp.day ≤ monthLength r.stamp.year r.stamp.month
  hour : r.stamp.hour ≤ 23
  minute : r.stamp.minute ≤ 59
  second : r.stamp.second ≤ 60
  hours : r.hours ≤ 23
  minutes : r.minutes ≤ 59

/-- What the local clock is ahead of UTC, in seconds. -/
def offset (r : Reading) : ℤ :=
  if r.ahead then r.hours * 3600 + r.minutes * 60 else -(r.hours * 3600 + r.minutes * 60)

/-- The seconds since the epoch, exactly. -/
def seconds (r : Reading) : ℚ :=
  ((daysBeforeYear r.stamp.year + daysBeforeMonth r.stamp.year r.stamp.month + r.stamp.day : ℕ) -
      Date.epoch.ordinal) * 86400 + r.stamp.hour * 3600 + r.stamp.minute * 60 + r.stamp.second +
    numberOf r.fraction / 10 ^ r.fraction.length - r.offset

/-- What `INSTANT_RE` finds in a text with these numbers. -/
def instant (r : Reading) : Instant where
  stamp := r.stamp
  fraction := r.fraction
  offset := if r.ahead then r.hours * 60 + r.minutes else -(r.hours * 60 + r.minutes)

end Reading

/-! ### Timestamps -/

/-- The value of an ASCII digit. -/
def asciiValue (ch : Char) : ℕ := ch.toNat - '0'.toNat

/-- A zoned timestamp that exists. -/
structure Timestamp where
  layout : Layout
  fits : layout.Fits fun ch => ch.isDigit
  ends : layout.newline = false
  real : (layout.reading asciiValue).Real

namespace Timestamp

def text (t : Timestamp) : String := String.ofList t.layout.text

def reading (t : Timestamp) : Reading := t.layout.reading asciiValue

def date (t : Timestamp) : Date where
  year := t.reading.stamp.year
  month := t.reading.stamp.month
  day := t.reading.stamp.day
  year_pos := t.real.year
  month_pos := t.real.month_pos
  month_le := t.real.month_le
  day_pos := t.real.day_pos
  day_le := t.real.day_le

/-- The part of a second that its digits write. -/
def fraction (t : Timestamp) : ℚ :=
  numberOf t.reading.fraction / 10 ^ t.reading.fraction.length

/-- The seconds since the epoch, exactly. -/
def seconds (t : Timestamp) : ℚ :=
  (t.date.ordinal - Date.epoch.ordinal) * 86400 + t.reading.stamp.hour * 3600 +
    t.reading.stamp.minute * 60 + t.reading.stamp.second + t.fraction - t.reading.offset

/-- The milliseconds since the epoch; what is less than one is cut off. -/
def millis (t : Timestamp) : ℤ := ⌊1000 * t.seconds⌋

/-- The local date and clock of a timestamp, the year first. -/
def clock (t : Timestamp) : (ℕ ×ₗ ℕ ×ₗ ℕ) ×ₗ ℕ ×ₗ ℕ ×ₗ ℕ ×ₗ ℚ :=
  toLex (t.date.fields, toLex (t.reading.stamp.hour, toLex (t.reading.stamp.minute,
    toLex (t.reading.stamp.second, t.fraction))))

end Timestamp

/-! ### What `encode_instant` is for -/

/-- A text has a value iff it is a timestamp, and the value is that of the timestamp. -/
def Exact (py : Python) (raw : String) : Prop :=
  ∀ place value, encodeInstant py raw place = .ok value ↔
    ∃ t : Timestamp, t.text = raw ∧ t.millis = value

/-- The characters that `\d` matches, and their values. -/
def IsDecimal (py : Python) (ch : Char) : Prop := (py.decimal ch).isSome

def decimalValue (py : Python) (ch : Char) : ℕ := (py.decimal ch).getD 0

/-- A text that passes every check, although its day is not one of its month, its offset is none,
one of its digits is not an ASCII digit, or it ends in a newline. -/
def Misread (py : Python) (raw : String) : Prop :=
  ∃ l : Layout, l.text = raw.toList ∧ l.Fits (IsDecimal py) ∧
    (l.reading (decimalValue py)).Checked ∧
    (monthLength (l.reading (decimalValue py)).stamp.year (l.reading (decimalValue py)).stamp.month
        < (l.reading (decimalValue py)).stamp.day ∨
      23 < (l.reading (decimalValue py)).hours ∨ 59 < (l.reading (decimalValue py)).minutes ∨
      (¬ l.Fits fun ch => ch.isDigit) ∨ l.newline = true)

/-- `\d` matches no other ASCII character than the digits, and a digit is below ten. -/
structure DecimalDigits (py : Python) : Prop where
  ascii : ∀ ch : Char, ch.toNat < 128 → ch.isDigit = false → py.decimal ch = none
  lt_ten : ∀ ch d, py.decimal ch = some d → d < 10

end Lnpl.Interp

/-!
## Instants as texts

`decode_instant`: the milliseconds since the epoch as a timestamp in UTC, of four digits for the
year and three for the milliseconds.
-/

namespace Lnpl.Interp

open Lib.Calendar (Date)

/-- `%0*d` of a number that is not negative. -/
def zeroPadded (width n : Nat) : List Char :=
  List.replicate (width - (Nat.toDigits 10 n).length) '0' ++ Nat.toDigits 10 n

/-- `date.max.toordinal()`. -/
def maxOrdinal : Int := 3652059

/-- The milliseconds of a day. -/
def dayMillis : Nat := 86400000

/-- A date and a time of the day, in milliseconds, as `"%04d-%02d-%02dT%02d:%02d:%02d.%03dZ"`. -/
def instantText (date : Date) (time : Nat) : List Char :=
  zeroPadded 4 date.year ++ '-' :: (zeroPadded 2 date.month ++ '-' :: (zeroPadded 2 date.day ++
    'T' :: (zeroPadded 2 (time / 3600000) ++ ':' :: (zeroPadded 2 (time / 60000 % 60) ++
    ':' :: (zeroPadded 2 (time / 1000 % 60) ++ ('.' :: zeroPadded 3 (time % 1000) ++ ['Z']))))))

/-- `decode_instant`; the error is the text of a `ConditionError`. -/
def decodeInstant (ops : JsonOps) : Json → Except String String
  | .int ms =>
    let ordinal := epochOrdinal + ms / dayMillis
    if 1 ≤ ordinal ∧ ordinal ≤ maxOrdinal then
      .ok (String.ofList (instantText (Date.ofOrdinal ordinal.toNat) (ms % dayMillis).toNat))
    else
      .error ("instant " ++ toString ms ++ " ms is outside the RFC 3339 year range 0001-9999")
  | value => .error ("instant is not integer milliseconds: " ++ ops.repr value)

end Lnpl.Interp
