import Lnpl.Interp.Money

/-!
# Instants

`encode_instant`: a zoned RFC 3339 timestamp as the milliseconds since the epoch, in UTC.
-/

namespace Lnpl.Interp

open Front (Python)

/-! ### The shape of a timestamp -/

/-- `\d{n}` at the head of a text: its value, and what is behind it. -/
def fixedDigits (py : Python) : Nat → List Char → Option (Nat × List Char)
  | 0, chars => some (0, chars)
  | _ + 1, [] => none
  | n + 1, ch :: chars => do
    let d ← py.decimal ch
    let (value, rest) ← fixedDigits py n chars
    return (d * 10 ^ n + value, rest)

/-- One of some characters at the head of a text. -/
def oneOf (chars : List Char) : List Char → Option (List Char)
  | [] => none
  | ch :: rest => if chars.contains ch then some rest else none

/-- The fields of a timestamp, up to its seconds. -/
structure Stamp where
  year : Nat
  month : Nat
  day : Nat
  hour : Nat
  minute : Nat
  second : Nat
  deriving DecidableEq, Repr

/-- `_INSTANT_SHAPE_RE`: the fields, and what is behind them. -/
def stampOf (py : Python) (text : List Char) : Option (Stamp × List Char) := do
  let (year, text) ← fixedDigits py 4 text
  let text ← oneOf ['-'] text
  let (month, text) ← fixedDigits py 2 text
  let text ← oneOf ['-'] text
  let (day, text) ← fixedDigits py 2 text
  let text ← oneOf ['T', 't', ' '] text
  let (hour, text) ← fixedDigits py 2 text
  let text ← oneOf [':'] text
  let (minute, text) ← fixedDigits py 2 text
  let text ← oneOf [':'] text
  let (second, text) ← fixedDigits py 2 text
  return (⟨year, month, day, hour, minute, second⟩, text)

/-- `looks_like_instant`. -/
def looksLikeInstant (py : Python) (text : String) : Bool := (stampOf py text.toList).isSome

/-- The digits of a fraction of a second, if there is one. -/
def fractionOf (py : Python) : List Char → List Nat × List Char
  | '.' :: text =>
    match splitDigits py text with
    | ([], _) => ([], '.' :: text)
    | split => split
  | text => ([], text)

/-- `$`: the end, or a newline at the end. -/
def atEnd (text : List Char) : Bool := text.isEmpty || text = ['\n']

/-- What the zone designator adds to UTC, in minutes. -/
def zoneOf (py : Python) : List Char → Option Int
  | 'Z' :: text | 'z' :: text => if atEnd text then some 0 else none
  | sign :: text => do
    let _ ← oneOf ['+', '-'] [sign]
    let (hours, text) ← fixedDigits py 2 text
    let text :=
      match text with
      | ':' :: text => text
      | text => text
    let (minutes, text) ← fixedDigits py 2 text
    let offset : Int := hours * 60 + minutes
    if atEnd text then return (if sign = '+' then offset else -offset) else none
  | [] => none

/-- A zoned timestamp: its fields, the digits of its fraction, and its offset in minutes. -/
structure Instant where
  stamp : Stamp
  fraction : List Nat
  offset : Int
  deriving DecidableEq, Repr

/-- `INSTANT_RE`. -/
def instantOf (py : Python) (text : String) : Option Instant := do
  let (stamp, text) ← stampOf py text.toList
  let (fraction, text) := fractionOf py text
  let offset ← zoneOf py text
  return { stamp := stamp, fraction := fraction, offset := offset }

/-- `is_instant_text`. -/
def isInstantText (py : Python) (text : String) : Bool := (instantOf py text).isSome

/-! ### Encoding -/

def isLeap (year : Nat) : Bool := year % 4 = 0 && (year % 100 ≠ 0 || year % 400 = 0)

/-- The days of the months of a year. -/
def monthDays (year : Nat) : List Nat :=
  [31, if isLeap year then 29 else 28, 31, 30, 31, 30, 31, 31, 30, 31, 30, 31]

/-- `date(year, month, 1).toordinal()`. -/
def ordinalOfMonth (year month : Nat) : Nat :=
  let before := year - 1
  before * 365 + before / 4 - before / 100 + before / 400 +
    ((monthDays year).take (month - 1)).sum + 1

/-- `date(1970, 1, 1).toordinal()`. -/
def epochOrdinal : Int := 719163

/-- `calendar.timegm((year, month, day, 0, 0, 0, 0, 1, 0))`; `none` is a `ValueError`. -/
def timegm (year month day : Nat) : Option Int :=
  if 1 ≤ year ∧ 1 ≤ month ∧ month ≤ 12 then
    some (((ordinalOfMonth year month : Int) - epochOrdinal + day - 1) * 86400)
  else none

/-- `int((frac or ".0")[1:].ljust(3, "0")[:3])`. -/
def millisOf (fraction : List Nat) : Nat := numberOf ((fraction ++ [0, 0, 0]).take 3)

/-- `encode_instant` of a text; the error is the text of a `ConditionError`. -/
def encodeInstant (py : Python) (raw place : String) : Except String Int :=
  match instantOf py raw with
  | none =>
    if looksLikeInstant py raw then
      .error (place ++ " is a date-time without a zone designator: " ++ py.repr raw ++
        " — write an explicit `Z` or a numeric offset such as `+09:00` (RFC-0016: a zoneless " ++
        "timestamp names a different instant on every machine, so it has no single value to " ++
        "compare)")
    else .error (place ++ " is not a date-time: " ++ py.repr raw)
  | some t =>
    let s := t.stamp
    match timegm s.year s.month s.day with
    | none => .error (place ++ " is not a valid date: " ++ py.repr raw)
    | some seconds =>
      if 1 ≤ s.day ∧ s.day ≤ 31 ∧ s.hour ≤ 23 ∧ s.minute ≤ 59 ∧ s.second ≤ 60 then
        let total : Int := (seconds + s.hour * 3600 + s.minute * 60 + s.second) * 1000 +
          millisOf t.fraction - t.offset * 60000
        if int64Min ≤ total ∧ total ≤ int64Max then .ok total
        else .error (place ++ " is outside the 64-bit millisecond domain: " ++ py.repr raw)
      else .error (place ++ " is not a valid date-time: " ++ py.repr raw)

example : encodeInstant .ascii "2026-07-31T18:00:00.5+09:00" "at" = .ok 1785488400500 := by decide

end Lnpl.Interp
