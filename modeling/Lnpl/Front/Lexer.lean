import Lnpl.Lib.Words

/-!
# Words, numbers and durations

What the front end reads a source line with: Python's character tests, `str.split`, `int`, and the
table of duration units.  Which characters beyond ASCII are digits, lower case or alphanumeric is
decided by the Unicode tables of the running Python, so they are a parameter.
-/

namespace Lnpl.Front

/-- What leaves the condition and duration readers as a Python exception. -/
inductive Fault where
  /-- `ConditionError` -/
  | condition (message : String)
  /-- `ValueError`: `int` of a word that it cannot read, or a failed `__post_init__` -/
  | value (message : String)
  /-- `OverflowError` of `duration_ms_or_none` -/
  | overflow (message : String)
  deriving DecidableEq, Repr

/-- The running Python: its character tests, which are fixed on ASCII, and two text operations that
only messages are made with. -/
structure Python where
  /-- `str.isdigit` of one character; it holds of `²` as well as of the decimal digits -/
  isDigit : Char → Bool
  /-- the value `int` reads a character as; only a decimal digit has one -/
  decimal : Char → Option Nat
  isLower : Char → Bool
  isAlnum : Char → Bool
  repr : String → String
  /-- `format % argument`; a `%` that is part of the format can make it fail -/
  percent : String → String → Except Fault String
  isDigit_ascii : ∀ ch : Char, ch.toNat < 128 → isDigit ch = ch.isDigit
  decimal_ascii : ∀ ch : Char, ch.isDigit = true → decimal ch = some (ch.toNat - '0'.toNat)
  isLower_ascii : ∀ ch : Char, ch.toNat < 128 → isLower ch = ch.isLower
  isAlnum_ascii : ∀ ch : Char, ch.toNat < 128 → isAlnum ch = ch.isAlphanum

/-- A Python that knows ASCII only, and quotes a text as it stands. -/
def Python.ascii : Python where
  isDigit ch := ch.isDigit
  decimal ch := if ch.isDigit then some (ch.toNat - '0'.toNat) else none
  isLower ch := ch.isLower
  isAlnum ch := ch.isAlphanum
  repr text := "'" ++ text ++ "'"
  percent format argument := .ok (format.replace "%s" argument)
  isDigit_ascii _ _ := rfl
  decimal_ascii _ h := if_pos h
  isLower_ascii _ _ := rfl
  isAlnum_ascii _ _ := rfl

/-! ### Words -/

/-- `str.isspace` of one character. -/
def isSpace (ch : Char) : Bool :=
  let n := ch.toNat
  (9 ≤ n && n ≤ 13) || (28 ≤ n && n ≤ 32) || n == 0x85 || n == 0xa0 || n == 0x1680 ||
    (0x2000 ≤ n && n ≤ 0x200a) || n == 0x2028 || n == 0x2029 || n == 0x202f || n == 0x205f ||
    n == 0x3000

/-- `text.split()`. -/
def tokens (text : String) : List String := (Lib.words isSpace text.toList).map String.ofList

/-- A text that `split` can return: nonempty, without white space. -/
def Word (text : String) : Prop := Lib.IsWord isSpace text.toList

/-- `" ".join(tokens)`. -/
def unwords (ws : List String) : String := " ".intercalate ws

/-! ### Numbers -/

/-- `str.isdigit`. -/
def Python.isdigit (py : Python) (text : String) : Bool :=
  !text.toList.isEmpty && text.toList.all py.isDigit

/-- The longest decimal text that `int` converts. -/
def intMaxStrDigits : Nat := 4300

/-- The value of a row of decimal digits, after those that make up `n`. -/
def Python.decimals (py : Python) : List Char → Nat → Option Nat
  | [], n => some n
  | ch :: chars, n =>
    match py.decimal ch with
    | none => none
    | some d => py.decimals chars (10 * n + d)

/-- `int(text)`, of a text that `isdigit` holds of. -/
def Python.int (py : Python) (text : List Char) : Except Fault Nat :=
  if intMaxStrDigits < text.length then
    .error (.value "Exceeds the limit (4300 digits) for integer string conversion")
  else
    match py.decimals text 0 with
    | none => .error (.value ("invalid literal for int() with base 10: " ++
        py.repr (String.ofList text)))
    | some n => .ok n

/-! ### Durations -/

def int64Max : Nat := 2 ^ 63 - 1

/-- `DURATION_SCAN`: the longest suffix first. -/
def durationScan : List (String × Nat) :=
  [("ms", 1), ("s", 1000), ("m", 60000), ("h", 3600000), ("d", 86400000)]

/-- `tok[: -len(unit)]` if `tok.endswith(unit)`. -/
def stripSuffix (unit tok : List Char) : Option (List Char) :=
  if unit.isSuffixOf tok then some (tok.take (tok.length - unit.length)) else none

/-- The loop of `duration_ms_or_none` over the units still to be tried. -/
def Python.scanDuration (py : Python) (tok : String) :
    List (String × Nat) → Except Fault (Option Nat)
  | [] => .ok none
  | (unit, mult) :: units =>
    match stripSuffix unit.toList tok.toList with
    | none => py.scanDuration tok units
    | some head =>
      if py.isdigit (String.ofList head) then
        match py.int head with
        | .error e => .error e
        | .ok n =>
          if int64Max < n * mult then
            .error (.overflow (s!"duration {py.repr tok} is {n * mult} ms, past the 64-bit " ++
                "domain both modes compile to"))
          else .ok (some (n * mult))
      else py.scanDuration tok units

/-- `duration_ms_or_none`. -/
def Python.durationMsOrNone (py : Python) (tok : String) : Except Fault (Option Nat) :=
  py.scanDuration tok durationScan

/-! ### Lines -/

def keywordsTop : List String :=
  ["entity", "service", "workflow", "event", "capability", "refine"]

def keywordsClause : List String :=
  ["field", "goal", "policy", "security", "performance", "database", "expose", "spec", "given",
    "when", "expect"]

/-- One significant source line.  The lexer drops blank lines, so a line has a first word. -/
structure Line where
  lineno : Nat
  tokens : List String
  indent : Nat
  nonempty : tokens ≠ []
  deriving DecidableEq

/-- The first word. -/
def Line.head (line : Line) : String := line.tokens.head line.nonempty

end Lnpl.Front
