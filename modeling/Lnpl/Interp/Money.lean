import Mathlib.Algebra.Ring.Int.Defs
import Lnpl.Front.Lexer
import Lnpl.Interp.Values

/-!
# Money

The codec and the arithmetic of `money.py`: an amount is encoded in minor units, as many as the
exponent of its currency says, and only amounts of one currency are added, subtracted or compared.
-/

namespace Lnpl.Interp

open Front (Python isSpace)

def int64Min : Int := -2 ^ 63

def int64Max : Int := 2 ^ 63 - 1

/-- Python's `repr`, `str` and `==` of JSON values. -/
structure JsonOps where
  repr : Json → String
  str : Json → String
  eq : Json → Json → Bool

/-! ### Errors -/

/-- The codes of `MoneyError`. -/
inductive MoneyCode where
  | encodePrecision
  | currencyMismatch
  | range
  deriving DecidableEq, Repr

def MoneyCode.name : MoneyCode → String
  | encodePrecision => "money-encode-precision"
  | currencyMismatch => "money-currency-mismatch"
  | range => "money-range"

/-- What leaves `money.py`. -/
inductive MoneyFault where
  | money (code : MoneyCode) (message : String)
  /-- `ValueError` of `int`, of too many digits -/
  | value (message : String)
  deriving DecidableEq, Repr

/-! ### Currencies -/

/-- `CURRENCY_EXPONENT`. -/
def currencyExponent : List (String × Nat) :=
  [("BIF", 0), ("CLP", 0), ("DJF", 0), ("GNF", 0), ("ISK", 0), ("JPY", 0), ("KMF", 0), ("KRW", 0),
   ("PYG", 0), ("RWF", 0), ("UGX", 0), ("VND", 0), ("VUV", 0), ("XAF", 0), ("XOF", 0), ("XPF", 0),
   ("BHD", 3), ("IQD", 3), ("JOD", 3), ("KWD", 3), ("LYD", 3), ("OMR", 3), ("TND", 3)]

/-- `_ACTIVE_CURRENCY_CODES`. -/
def activeCurrencyCodes : List String :=
  ["AED", "AFN", "ALL", "AMD", "AOA", "ARS", "AUD", "AWG", "AZN", "BAM", "BBD", "BDT", "BHD", "BIF",
   "BMD", "BND", "BOB", "BOV", "BRL", "BSD", "BTN", "BWP", "BYN", "BZD", "CAD", "CDF", "CHE", "CHF",
   "CHW", "CLF", "CLP", "CNY", "COP", "COU", "CRC", "CUP", "CVE", "CZK", "DJF", "DKK", "DOP", "DZD",
   "EGP", "ERN", "ETB", "EUR", "FJD", "FKP", "GBP", "GEL", "GHS", "GIP", "GMD", "GNF", "GTQ", "GYD",
   "HKD", "HNL", "HTG", "HUF", "IDR", "ILS", "INR", "IQD", "IRR", "ISK", "JMD", "JOD", "JPY", "KES",
   "KGS", "KHR", "KMF", "KPW", "KRW", "KWD", "KYD", "KZT", "LAK", "LBP", "LKR", "LRD", "LSL", "LYD",
   "MAD", "MDL", "MGA", "MKD", "MMK", "MNT", "MOP", "MRU", "MUR", "MVR", "MWK", "MXN", "MXV", "MYR",
   "MZN", "NAD", "NGN", "NIO", "NOK", "NPR", "NZD", "OMR", "PAB", "PEN", "PGK", "PHP", "PKR", "PLN",
   "PYG", "QAR", "RON", "RSD", "RUB", "RWF", "SAR", "SBD", "SCR", "SDG", "SEK", "SGD", "SHP", "SLE",
   "SOS", "SRD", "SSP", "STN", "SVC", "SYP", "SZL", "THB", "TJS", "TMT", "TND", "TOP", "TRY", "TTD",
   "TWD", "TZS", "UAH", "UGX", "USD", "USN", "UYI", "UYU", "UYW", "UZS", "VED", "VES", "VND", "VUV",
   "XAF", "XAG", "XAU", "XBA", "XBB", "XBC", "XBD", "XCD", "XDR", "XOF", "XPD", "XPF", "XPT", "XSU",
   "XTS", "XUA", "XXX", "YER", "ZAR", "ZMW", "ZWG"]

/-- `_ALPHA3_RE.match`: `$` also matches before a newline at the end. -/
def isAlpha3 (text : String) : Bool :=
  match text.toList with
  | [a, b, d] | [a, b, d, '\n'] => [a, b, d].all fun ch => 'A' ≤ ch && ch ≤ 'Z'
  | _ => false

/-- `exponent`. -/
def exponent (ops : JsonOps) (currency : Json) : Except MoneyFault Nat :=
  let invalid : Except MoneyFault Nat :=
    .error (.money .encodePrecision (ops.repr currency ++
      " is not a valid ISO 4217 alpha-3 currency code"))
  match currency with
  | .str text =>
    if !isAlpha3 text then invalid
    else
      match currencyExponent.lookup text with
      | some places => .ok places
      | none =>
        if activeCurrencyCodes.contains text then .ok 2
        else
          .error (.money .encodePrecision (ops.repr currency ++
            " has valid alpha-3 shape but is not an active ISO 4217 currency code"))
  | _ => invalid

/-! ### Decimals -/

/-- A sign in front of a text. -/
def splitSign : List Char → Bool × List Char
  | '-' :: chars => (true, chars)
  | '+' :: chars => (false, chars)
  | chars => (false, chars)

/-- The values of the decimal digits in front of a text, and what is behind them. -/
def splitDigits (py : Python) : List Char → List Nat × List Char
  | [] => ([], [])
  | ch :: chars =>
    match py.decimal ch with
    | none => ([], ch :: chars)
    | some d =>
      let (digits, rest) := splitDigits py chars
      (d :: digits, rest)

/-- The number that a row of digits writes. -/
def numberOf (digits : List Nat) : Nat := digits.foldl (fun n d => 10 * n + d) 0

/-- What `Decimal` reads: the sign, the digits and the exponent, or no finite number. -/
inductive Decimal where
  | finite (negative : Bool) (digits : List Nat) (exponent : Int)
  | special
  deriving DecidableEq, Repr

/-- `strip` of a text. -/
def stripSpace (text : List Char) : List Char :=
  ((text.dropWhile isSpace).reverse.dropWhile isSpace).reverse

/-- The exponent behind the digits of a decimal. -/
def decimalExponent (py : Python) : List Char → Option Int
  | [] => some 0
  | mark :: chars =>
    if mark = 'e' || mark = 'E' then
      let (negative, chars) := splitSign chars
      match splitDigits py chars with
      | ([], _) => none
      | (digits, []) => some (if negative then -(numberOf digits : Int) else numberOf digits)
      | (_, _ :: _) => none
    else none

/-- An infinity, or what is not a number. -/
def isSpecial (py : Python) (text : List Char) : Bool :=
  let text := text.map Char.toLower
  let afterNan (chars : List Char) : Bool :=
    match chars with
    | 'n' :: 'a' :: 'n' :: rest => (splitDigits py rest).2.isEmpty
    | _ => false
  text = "inf".toList || text = "infinity".toList || afterNan text ||
    match text with
    | 's' :: rest => afterNan rest
    | _ => false

/-- The digits and the exponent of `Decimal(text).as_tuple()`: no zero leads. -/
def decimalDigits (digits : List Nat) : List Nat :=
  match digits.dropWhile (· = 0) with
  | [] => [0]
  | digits => digits

/-- `Decimal(text)`; `none` is what it refuses. -/
def decimalOf (py : Python) (text : String) : Option Decimal :=
  let (negative, body) := splitSign ((stripSpace text.toList).filter (· ≠ '_'))
  let (whole, rest) := splitDigits py body
  let (fraction, rest) :=
    match rest with
    | '.' :: chars => splitDigits py chars
    | _ => ([], rest)
  if whole.isEmpty && fraction.isEmpty then
    if isSpecial py body then some .special else none
  else (decimalExponent py rest).map fun e =>
    .finite negative (decimalDigits (whole ++ fraction)) (e - fraction.length)

/-! ### The codec -/

/-- `encode_money`. -/
def encodeMoney (py : Python) (ops : JsonOps) (amount currency : Json) :
    Except MoneyFault (Int × String) := do
  let places ← exponent ops currency
  let code :=
    match currency with
    | .str text => text
    | _ => ""
  match amount with
  | .str text =>
    match decimalOf py text with
    | none => .error (.money .encodePrecision (ops.repr amount ++ " is not a decimal amount"))
    | some .special =>
      .error (.money .encodePrecision (ops.repr amount ++ " is not a finite decimal amount"))
    | some (.finite negative digits e) =>
      if (-e).toNat ≠ places then
        .error (.money .encodePrecision (text ++ " has " ++ toString (-e).toNat ++
          " decimal place(s), currency " ++ code ++ " requires exactly " ++ toString places))
      else if Front.intMaxStrDigits < digits.length then
        .error (.value "Exceeds the limit (4300 digits) for integer string conversion")
      else
        let unscaled : Int := numberOf digits * 10 ^ e.toNat
        let minor := if negative then -unscaled else unscaled
        if int64Min ≤ minor ∧ minor ≤ int64Max then .ok (minor, code)
        else
          .error (.money .encodePrecision (text ++ " " ++ code ++
            " is outside the 64-bit minor-unit domain"))
  | _ => .error (.money .encodePrecision (ops.repr amount ++ " is not a decimal-string amount"))

/-! ### Arithmetic -/

/-- An amount in minor units, and its currency. -/
abbrev Pair := Int × String

/-- The refusal of two currencies. -/
def mismatch {α : Type} (verb : String) (a b : Pair) : Except MoneyFault α :=
  .error (.money .currencyMismatch ("cannot " ++ verb ++ " " ++ a.2 ++ " and " ++ b.2 ++
    ": different currencies"))

/-- `compare`. -/
def compareMoney (a b : Pair) : Except MoneyFault Int :=
  if a.2 ≠ b.2 then mismatch "compare" a b
  else .ok ((if b.1 < a.1 then 1 else 0) - (if a.1 < b.1 then 1 else 0))

/-- `add`. -/
def addMoney (a b : Pair) : Except MoneyFault Pair :=
  if a.2 ≠ b.2 then mismatch "add" a b else .ok (a.1 + b.1, a.2)

/-- `_in_domain`. -/
def inDomain (minor : Int) (currency : String) : Except MoneyFault Pair :=
  if int64Min ≤ minor ∧ minor ≤ int64Max then .ok (minor, currency)
  else .error (.money .range ("value out of the 64-bit range: " ++ toString minor ++ " " ++
    currency))

/-- `sub`. -/
def subMoney (a b : Pair) : Except MoneyFault Pair :=
  if a.2 ≠ b.2 then mismatch "subtract" a b else inDomain (a.1 - b.1) a.2

/-- `mul_int`. -/
def mulMoney (a : Pair) (n : Int) : Except MoneyFault Pair := inDomain (a.1 * n) a.2

end Lnpl.Interp
