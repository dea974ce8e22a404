import Lnpl.Lib.PyJson

/-!
# JSON texts of any str

`json.loads` of bytes with all it accepts and raises: a str is a list of code points, so that a lone
surrogate stays one; a float is kept as its literal, `NaN` and the infinities among them; and what
is nested deeper than the interpreter recurses is a `RecursionError`, which is no `ValueError`.  The
codecs beside UTF-8 are a parameter.

The text that `json.dumps` with sorted keys writes for an object of strs and ints is read back as
that object (`loads_dumps`).
-/

namespace Lnpl.Lib.JsonText

open Lnpl.Lib.Py (Encoding detectEncoding intDigitsLimit)

/-- A str: its code points. -/
abbrev Text := List Nat

/-- The code points of a text without surrogates. -/
def codes (s : String) : Text := s.toList.map Char.toNat

theorem codes_injective : Function.Injective codes := by
  intro s t h
  have hchars := List.map_injective_iff.mpr (fun _ _ => Char.toNat_inj.mp) h
  exact String.toList_inj.mp hchars

/-- A value that `json.loads` answers. -/
inductive Json where
  | null
  | bool (b : Bool)
  | int (n : Int)
  | float (literal : Text)
  | str (text : Text)
  | list (items : List Json)
  | dict (fields : List (Text × Json))
  deriving Repr, Inhabited

/-- The items of a dict. -/
abbrev Fields := List (Text × Json)

/-- What `json.loads` raises; a `JSONDecodeError` and a `UnicodeDecodeError` are `ValueError`s. -/
inductive Fault where
  | valueError
  | recursionError
  deriving DecidableEq, Repr

/-- `value == text`, the right side a str. -/
def Json.isText (text : Text) : Json → Bool
  | .str other => other == text
  | _ => false

/-- The int that `isinstance(value, int)` finds; a bool is one. -/
def Json.int? : Json → Option Int
  | .int n => some n
  | .bool b => some (if b then 1 else 0)
  | _ => none

/-- `fields.get(key)`. -/
def field (fields : Fields) (key : String) : Json := (fields.lookup (codes key)).getD .null

/-! ### Writing -/

/-- The code point of a hexadecimal digit. -/
def hexCode (n : Nat) : Nat := if n < 10 then 48 + n else 87 + n

/-- `\uXXXX`. -/
def unitEscape (unit : Nat) : Text :=
  ['\\'.toNat, 'u'.toNat, hexCode (unit / 4096), hexCode (unit / 256 % 16),
    hexCode (unit / 16 % 16), hexCode (unit % 16)]

/-- What `ensure_ascii` writes for a code point. -/
def escapeAscii (code : Nat) : Text :=
  if code = '"'.toNat then ['\\'.toNat, '"'.toNat]
  else if code = '\\'.toNat then ['\\'.toNat, '\\'.toNat]
  else if code = 10 then ['\\'.toNat, 'n'.toNat]
  else if code = 13 then ['\\'.toNat, 'r'.toNat]
  else if code = 9 then ['\\'.toNat, 't'.toNat]
  else if code = 12 then ['\\'.toNat, 'f'.toNat]
  else if code = 8 then ['\\'.toNat, 'b'.toNat]
  else if 32 ≤ code ∧ code ≤ 126 then [code]
  else if code < 0x10000 then unitEscape code
  else unitEscape (0xd800 + (code - 0x10000) / 0x400) ++
    unitEscape (0xdc00 + (code - 0x10000) % 0x400)

/-- A text in quotes. -/
def writeText (text : Text) : Text := '"'.toNat :: (text.flatMap escapeAscii ++ ['"'.toNat])

mutual

/-- `json.dumps(value)`. -/
def Json.write : Json → Text
  | .null => codes "null"
  | .bool b => codes (if b then "true" else "false")
  | .int n => codes (toString n)
  | .float literal => literal
  | .str text => writeText text
  | .list items => '['.toNat :: (writeItems [] items ++ [']'.toNat])
  | .dict fields => '\x7b'.toNat :: (writeFields [] fields ++ ['\x7d'.toNat])

/-- The items, `sep` before the first. -/
def writeItems (sep : Text) : List Json → Text
  | [] => []
  | value :: items => sep ++ (value.write ++ writeItems (codes ", ") items)

def writeFields (sep : Text) : Fields → Text
  | [] => []
  | (key, value) :: fields =>
    sep ++ (writeText key ++ codes ": " ++ value.write ++ writeFields (codes ", ") fields)

end

/-- The order of texts, by their code points. -/
def textLe : Text → Text → Bool
  | [], _ => true
  | _ :: _, [] => false
  | code :: text, other :: rest => code < other || (code = other && textLe text rest)

/-- An item put in order of its key. -/
def insertField (entry : Text × Json) : Fields → Fields
  | [] => [entry]
  | other :: fields =>
    if textLe entry.1 other.1 then entry :: other :: fields else other :: insertField entry fields

mutual

/-- The value, the items of its dicts in order of their keys. -/
def Json.sorted : Json → Json
  | .list items => .list (sortedItems items)
  | .dict fields => .dict (sortedFields fields)
  | value => value

def sortedItems : List Json → List Json
  | [] => []
  | value :: items => value.sorted :: sortedItems items

def sortedFields : Fields → Fields
  | [] => []
  | (key, value) :: fields => insertField (key, value.sorted) (sortedFields fields)

end

/-- `json.dumps(value, sort_keys=True)`. -/
def dumps (value : Json) : Text := value.sorted.write

/-- `text.encode("utf-8")` of a text without surrogates. -/
def encodeUtf8 (text : Text) : List UInt8 :=
  text.flatMap fun code => String.utf8EncodeChar (Char.ofNat code)

/-! ### Bytes -/

/-- A continuation byte. -/
def isTail (b : UInt8) : Bool := 0x80 ≤ b.toNat && b.toNat ≤ 0xbf

/-- The first two bytes of a code point of three; `surrogatepass` lets the surrogates through. -/
def leadsThree (a b : UInt8) : Bool :=
  (a.toNat = 0xe0 && 0xa0 ≤ b.toNat && b.toNat ≤ 0xbf) ||
    (0xe1 ≤ a.toNat && a.toNat ≤ 0xef && isTail b)

/-- The first two bytes of a code point of four. -/
def leadsFour (a b : UInt8) : Bool :=
  (a.toNat = 0xf0 && 0x90 ≤ b.toNat && b.toNat ≤ 0xbf) ||
    (0xf1 ≤ a.toNat && a.toNat ≤ 0xf3 && isTail b) ||
    (a.toNat = 0xf4 && 0x80 ≤ b.toNat && b.toNat ≤ 0x8f)

/-- `bytes.decode("utf-8", "surrogatepass")`, `none` for the `UnicodeDecodeError`. -/
def decodeUtf8 : List UInt8 → Option Text
  | [] => some []
  | a :: rest =>
    if a.toNat < 0x80 then (decodeUtf8 rest).map (a.toNat :: ·)
    else
      match rest with
      | [] => none
      | b :: rest =>
        if 0xc2 ≤ a.toNat ∧ a.toNat ≤ 0xdf ∧ isTail b then
          (decodeUtf8 rest).map ((a.toNat % 32 * 64 + b.toNat % 64) :: ·)
        else
          match rest with
          | [] => none
          | d :: rest =>
            if leadsThree a b && isTail d then
              (decodeUtf8 rest).map
                ((a.toNat % 16 * 4096 + b.toNat % 64 * 64 + d.toNat % 64) :: ·)
            else
              match rest with
              | [] => none
              | e :: rest =>
                if leadsFour a b && isTail d && isTail e then
                  (decodeUtf8 rest).map
                    ((a.toNat % 8 * 262144 + b.toNat % 64 * 4096 + d.toNat % 64 * 64 +
                      e.toNat % 64) :: ·)
                else none

/-- What the codecs for UTF-16 and UTF-32 make of bytes. -/
abbrev Codecs := Encoding → List UInt8 → Option Text

/-- The text of the bytes, in the encoding that they show. -/
def decodeText (codecs : Codecs) (bytes : List UInt8) : Option Text :=
  match detectEncoding bytes with
  | .utf8 => decodeUtf8 bytes
  | .utf8Sig => decodeUtf8 (bytes.drop 3)
  | encoding => codecs encoding bytes

/-! ### Reading -/

def isSpace (code : Nat) : Bool := code = 32 || code = 9 || code = 10 || code = 13

def skipSpace (text : Text) : Text := text.dropWhile isSpace

/-- The value of a hexadecimal digit. -/
def hexValue (code : Nat) : Option Nat :=
  if 48 ≤ code ∧ code ≤ 57 then some (code - 48)
  else if 97 ≤ code ∧ code ≤ 102 then some (code - 87)
  else if 65 ≤ code ∧ code ≤ 70 then some (code - 55)
  else none

/-- The number in four hexadecimal digits. -/
def hex4 (a b d e : Nat) : Option Nat := do
  return (((← hexValue a) * 16 + (← hexValue b)) * 16 + (← hexValue d)) * 16 + (← hexValue e)

/-- The code point of an escape of two characters. -/
def unescape (code : Nat) : Option Nat :=
  if code = '"'.toNat ∨ code = '\\'.toNat ∨ code = '/'.toNat then some code
  else if code = 'b'.toNat then some 8
  else if code = 'f'.toNat then some 12
  else if code = 'n'.toNat then some 10
  else if code = 'r'.toNat then some 13
  else if code = 't'.toNat then some 9
  else none

/-- A code unit behind a high surrogate, if an escape for one stood before it: the code points, and
the high surrogate that waits for the next unit. -/
def joinUnit (high : Option Nat) (unit : Nat) : Text × Option Nat :=
  match high with
  | some high =>
    if 0xdc00 ≤ unit ∧ unit ≤ 0xdfff then
      ([0x10000 + (high - 0xd800) * 0x400 + (unit - 0xdc00)], none)
    else if 0xd800 ≤ unit ∧ unit ≤ 0xdbff then ([high], some unit)
    else ([high, unit], none)
  | none => if 0xd800 ≤ unit ∧ unit ≤ 0xdbff then ([], some unit) else ([unit], none)

/-- The code points before what was read of the rest. -/
def before (text : Text) (read : Text × Text) : Text × Text := (text ++ read.1, read.2)

/-- `scanstring`, behind the opening quote, or behind the escape of the high surrogate `high`. -/
def scanString (high : Option Nat) : Text → Except Fault (Text × Text)
  | [] => .error .valueError
  | code :: rest =>
    if code = '"'.toNat then .ok (high.toList, rest)
    else if code = '\\'.toNat then
      match rest with
      | [] => .error .valueError
      | mark :: rest =>
        if mark = 'u'.toNat then
          match rest with
          | a :: b :: d :: e :: rest =>
            match hex4 a b d e with
            | none => .error .valueError
            | some unit =>
              (scanString (joinUnit high unit).2 rest).map (before (joinUnit high unit).1)
          | _ => .error .valueError
        else
          match unescape mark with
          | none => .error .valueError
          | some code => (scanString none rest).map (before (high.toList ++ [code]))
    else if code < 32 then .error .valueError
    else (scanString none rest).map (before (high.toList ++ [code]))

def isDigit (code : Nat) : Bool := 48 ≤ code && code ≤ 57

/-- The sign of a number, and what stands behind it. -/
def signPart : Text → Text × Text
  | [] => ([], [])
  | code :: rest => if code = '-'.toNat then ([code], rest) else ([], code :: rest)

/-- The digits before the point; a leading zero stands alone. -/
def intPart : Text → Option (Text × Text)
  | [] => none
  | code :: rest =>
    if code = '0'.toNat then some ([code], rest)
    else if isDigit code then
      some ((code :: rest).takeWhile isDigit, (code :: rest).dropWhile isDigit)
    else none

/-- The digits behind `mark`; without a digit, there is nothing behind the number. -/
def digitsBehind (mark text rest : Text) : Text × Text :=
  if rest.takeWhile isDigit = [] then ([], text)
  else (mark ++ rest.takeWhile isDigit, rest.dropWhile isDigit)

/-- The point and the digits behind it, if there is one. -/
def fracPart : Text → Text × Text
  | [] => ([], [])
  | code :: rest =>
    if code = '.'.toNat then digitsBehind [code] (code :: rest) rest else ([], code :: rest)

/-- The exponent, if there is one. -/
def expPart : Text → Text × Text
  | [] => ([], [])
  | code :: rest =>
    if code = 'e'.toNat ∨ code = 'E'.toNat then
      match rest with
      | [] => ([], [code])
      | sign :: digits =>
        if sign = '+'.toNat ∨ sign = '-'.toNat then
          digitsBehind [code, sign] (code :: sign :: digits) digits
        else digitsBehind [code] (code :: sign :: digits) (sign :: digits)
    else ([], code :: rest)

/-- The number that its digits are. -/
def numberOf (digits : Text) : Nat := Nat.ofDigitChars 10 (digits.map Char.ofNat) 0

/-- `_match_number_unicode`. -/
def scanNumber (text : Text) : Except Fault (Json × Text) :=
  let sign := signPart text
  match intPart sign.2 with
  | none => .error .valueError
  | some int =>
    let frac := fracPart int.2
    let exp := expPart frac.2
    if frac.1 = [] ∧ exp.1 = [] then
      if intDigitsLimit < int.1.length then .error .valueError
      else .ok (.int (if sign.1 = [] then numberOf int.1 else -numberOf int.1), exp.2)
    else .ok (.float (sign.1 ++ int.1 ++ frac.1 ++ exp.1), exp.2)

/-- The names of constants. -/
def constants : List (Text × Json) :=
  [(codes "null", .null), (codes "true", .bool true), (codes "false", .bool false),
    (codes "NaN", .float (codes "NaN")), (codes "Infinity", .float (codes "Infinity")),
    (codes "-Infinity", .float (codes "-Infinity"))]

/-- The constant that the text starts with. -/
def scanConstant (text : Text) : Option (Json × Text) :=
  constants.findSome? fun constant =>
    (constant.1.isPrefixOf? text).map fun rest => (constant.2, rest)

/-- A value that holds no other. -/
def scanAtom (text : Text) : Except Fault (Json × Text) :=
  if text.head? = some '"'.toNat then
    (scanString none text.tail).map fun read => (.str read.1, read.2)
  else
    match scanConstant text with
    | some read => .ok read
    | none => scanNumber text

instance : LawfulBEq Text := inferInstanceAs (LawfulBEq (List Nat))

/-- `fields[key] = value`. -/
def setItem (fields : Fields) (key : Text) (value : Json) : Fields :=
  if key ∈ fields.map Prod.fst then
    fields.map fun item => if item.1 = key then (key, value) else item
  else fields ++ [(key, value)]

/-- `dict(items)`. -/
def dictOf (items : Fields) : Fields :=
  items.foldl (fun fields item => setItem fields item.1 item.2) []

/-- How a value inside a container is read. -/
abbrev Scan := Text → Except Fault (Json × Text)

/-- The items of an array, of which there is one; as each is read from a character at least, the
length of the text is fuel enough. -/
def scanItems (scan : Scan) : Nat → Text → Except Fault (List Json × Text)
  | 0, _ => .error .valueError
  | fuel + 1, text =>
    match scan text with
    | .error fault => .error fault
    | .ok (value, rest) =>
      match skipSpace rest with
      | [] => .error .valueError
      | code :: rest =>
        if code = ']'.toNat then .ok ([value], rest)
        else if code = ','.toNat then
          (scanItems scan fuel (skipSpace rest)).map fun read => (value :: read.1, read.2)
        else .error .valueError

/-- `_parse_array_unicode`, behind the bracket. -/
def scanArray (scan : Scan) (text : Text) : Except Fault (Json × Text) :=
  if (skipSpace text).head? = some ']'.toNat then .ok (.list [], (skipSpace text).tail)
  else
    (scanItems scan (text.length + 1) (skipSpace text)).map fun read => (.list read.1, read.2)

/-- A key with its colon, and the value behind it. -/
def scanField (scan : Scan) (text : Text) : Except Fault ((Text × Json) × Text) :=
  if text.head? = some '"'.toNat then
    match scanString none text.tail with
    | .error fault => .error fault
    | .ok (key, rest) =>
      if (skipSpace rest).head? = some ':'.toNat then
        (scan (skipSpace (skipSpace rest).tail)).map fun read => ((key, read.1), read.2)
      else .error .valueError
  else .error .valueError

/-- The items of an object, of which there is one. -/
def scanFields (scan : Scan) : Nat → Text → Except Fault (Fields × Text)
  | 0, _ => .error .valueError
  | fuel + 1, text =>
    match scanField scan text with
    | .error fault => .error fault
    | .ok (entry, rest) =>
      match skipSpace rest with
      | [] => .error .valueError
      | code :: rest =>
        if code = '\x7d'.toNat then .ok ([entry], rest)
        else if code = ','.toNat then
          (scanFields scan fuel (skipSpace rest)).map fun read => (entry :: read.1, read.2)
        else .error .valueError

/-- `_parse_object_unicode`, behind the brace. -/
def scanObject (scan : Scan) (text : Text) : Except Fault (Json × Text) :=
  if (skipSpace text).head? = some '\x7d'.toNat then .ok (.dict [], (skipSpace text).tail)
  else
    (scanFields scan (text.length + 1) (skipSpace text)).map fun read =>
      (.dict (dictOf read.1), read.2)

/-- `scan_once`, where there is room for so many containers inside each other. -/
def scanOnce : Nat → Scan
  | 0, text =>
    if text.head? = some '['.toNat ∨ text.head? = some '\x7b'.toNat then .error .recursionError
    else scanAtom text
  | room + 1, text =>
    if text.head? = some '['.toNat then scanArray (scanOnce room) text.tail
    else if text.head? = some '\x7b'.toNat then scanObject (scanOnce room) text.tail
    else scanAtom text

/-- `json.loads(bytes)`. -/
def loads (codecs : Codecs) (room : Nat) (bytes : List UInt8) : Except Fault Json :=
  match decodeText codecs bytes with
  | none => .error .valueError
  | some text =>
    match scanOnce room (skipSpace text) with
    | .error fault => .error fault
    | .ok (value, rest) => if skipSpace rest = [] then .ok value else .error .valueError

/-- `json.loads(text)` of a str, which may not start with a byte order mark. -/
def loadsText (room : Nat) (text : Text) : Except Fault Json :=
  if text.head? = some 0xfeff then .error .valueError
  else
    match scanOnce room (skipSpace text) with
    | .error fault => .error fault
    | .ok (value, rest) => if skipSpace rest = [] then .ok value else .error .valueError

/-! ### Strs -/

theorem before_map (text text' : Text) (read : Except Fault (Text × Text)) :
    (read.map (before text')).map (before text) = read.map (before (text ++ text')) := by
  cases read with
  | error fault => rfl
  | ok read =>
    show Except.ok (text ++ (text' ++ read.1), read.2) = Except.ok (text ++ text' ++ read.1, read.2)
    rw [List.append_assoc]

variable {n unit code : Nat} {text rest : Text} {value : Json} {fields : Fields}

theorem hexValue_hexCode (h : n < 16) : hexValue (hexCode n) = some n := by
  have hall : ∀ n : Fin 16, hexValue (hexCode n) = some n.val := by decide
  exact hall ⟨n, h⟩

/-- A code unit is read back from its digits. -/
theorem hex4_unit (h : unit < 0x10000) :
    hex4 (hexCode (unit / 4096)) (hexCode (unit / 256 % 16)) (hexCode (unit / 16 % 16))
      (hexCode (unit % 16)) = some unit := by
  have hfirst := hexValue_hexCode (n := unit / 4096) (by omega)
  have hsecond := hexValue_hexCode (n := unit / 256 % 16) (by omega)
  have hthird := hexValue_hexCode (n := unit / 16 % 16) (by omega)
  have hfourth := hexValue_hexCode (n := unit % 16) (by omega)
  rw [hex4, hfirst, hsecond, hthird, hfourth]
  show some (((unit / 4096 * 16 + unit / 256 % 16) * 16 + unit / 16 % 16) * 16 + unit % 16) =
    some unit
  congr 1
  omega

/-- The escape of a code unit is read as the unit. -/
theorem scanString_unitEscape (h : unit < 0x10000) (high : Option Nat) (rest : Text) :
    scanString high (unitEscape unit ++ rest) =
      (scanString (joinUnit high unit).2 rest).map (before (joinUnit high unit).1) := by
  have hhex := hex4_unit h
  rw [unitEscape]
  simp only [List.cons_append, List.nil_append]
  rw [scanString, if_neg (by decide), if_pos rfl]
  simp only [if_true, hhex]

/-- The short escapes, and what else is written for a code point that has none. -/
def shortEscape (code : Nat) (other : Text) : Text :=
  if code = '"'.toNat then ['\\'.toNat, '"'.toNat]
  else if code = '\\'.toNat then ['\\'.toNat, '\\'.toNat]
  else if code = 10 then ['\\'.toNat, 'n'.toNat]
  else if code = 13 then ['\\'.toNat, 'r'.toNat]
  else if code = 9 then ['\\'.toNat, 't'.toNat]
  else if code = 12 then ['\\'.toNat, 'f'.toNat]
  else if code = 8 then ['\\'.toNat, 'b'.toNat]
  else other

theorem scanString_shortEscape {other : Text}
    (h : code ≠ '"'.toNat → code ≠ '\\'.toNat →
      scanString none (other ++ rest) = (scanString none rest).map (before [code])) :
    scanString none (shortEscape code other ++ rest) =
      (scanString none rest).map (before [code]) := by
  have hshort : ∀ mark : Nat, mark ≠ 'u'.toNat → unescape mark = some code →
      scanString none (['\\'.toNat, mark] ++ rest) =
        (scanString none rest).map (before [code]) := by
    intro mark hmark hcode
    rw [List.cons_append, List.cons_append, List.nil_append, scanString.eq_def]
    dsimp only
    rw [if_neg (by decide), if_pos rfl, if_neg hmark, hcode]
    rfl
  unfold shortEscape
  split_ifs with hquote hslash hline hreturn htab hfeed hback
  · exact hshort _ (by decide) (by rw [hquote]; rfl)
  · exact hshort _ (by decide) (by rw [hslash]; rfl)
  · exact hshort _ (by decide) (by rw [hline]; rfl)
  · exact hshort _ (by decide) (by rw [hreturn]; rfl)
  · exact hshort _ (by decide) (by rw [htab]; rfl)
  · exact hshort _ (by decide) (by rw [hfeed]; rfl)
  · exact hshort _ (by decide) (by rw [hback]; rfl)
  · exact h hquote hslash

/-- A code point is read back from what is written for it. -/
theorem scanString_escapeAscii (h : code.isValidChar) (rest : Text) :
    scanString none (escapeAscii code ++ rest) = (scanString none rest).map (before [code]) := by
  show scanString none (shortEscape code _ ++ rest) = _
  refine scanString_shortEscape fun hquote hslash => ?_
  by_cases hascii : 32 ≤ code ∧ code ≤ 126
  · rw [if_pos hascii, List.cons_append, List.nil_append, scanString.eq_def]
    simp only [if_neg hquote, if_neg hslash]
    rw [if_neg (by omega)]
    rfl
  rw [if_neg hascii]
  by_cases hunit : code < 0x10000
  · have hsurrogate : ¬(0xd800 ≤ code ∧ code ≤ 0xdbff) := by
      rcases h with h | h <;> omega
    have hjoin : joinUnit none code = ([code], none) := if_neg hsurrogate
    rw [if_pos hunit, scanString_unitEscape hunit, hjoin]
  · -- Two escapes, of the high and the low surrogate.
    have hlt : code < 0x110000 := by
      rcases h with h | h <;> omega
    have hhigh : joinUnit none (0xd800 + (code - 0x10000) / 0x400) =
        ([], some (0xd800 + (code - 0x10000) / 0x400)) := if_pos (by omega)
    have hlow : joinUnit (some (0xd800 + (code - 0x10000) / 0x400))
        (0xdc00 + (code - 0x10000) % 0x400) = ([code], none) := by
      have hcode : 0x10000 + (0xd800 + (code - 0x10000) / 0x400 - 0xd800) * 0x400 +
          (0xdc00 + (code - 0x10000) % 0x400 - 0xdc00) = code := by omega
      rw [joinUnit, if_pos (by omega), hcode]
    rw [if_neg hunit, List.append_assoc, scanString_unitEscape (by omega), hhigh,
      scanString_unitEscape (by omega), hlow, before_map, List.nil_append]

/-- A str of scalar values is read back from its text. -/
theorem scanString_write (h : ∀ code ∈ text, code.isValidChar) (rest : Text) :
    scanString none (text.flatMap escapeAscii ++ '"'.toNat :: rest) = .ok (text, rest) := by
  induction text with
  | nil =>
    rw [List.flatMap_nil, List.nil_append, scanString.eq_def]
    exact if_pos rfl
  | cons code text ih =>
    have hrest := ih fun code hcode => h code (List.mem_cons_of_mem _ hcode)
    rw [List.flatMap_cons, List.append_assoc, scanString_escapeAscii (h code List.mem_cons_self),
      hrest]
    rfl

/-! ### Ints -/

/-- What may follow a value. -/
def Stops (rest : Text) : Prop :=
  ∀ code ∈ rest.head?, code = ','.toNat ∨ code = ']'.toNat ∨ code = '\x7d'.toNat

theorem Stops.nil : Stops [] := fun _ h => nomatch h

theorem Stops.comma (rest : Text) : Stops (','.toNat :: rest) :=
  fun _ h => Or.inl (Option.some.inj h).symm

theorem Stops.bracket (rest : Text) : Stops (']'.toNat :: rest) :=
  fun _ h => Or.inr (Or.inl (Option.some.inj h).symm)

theorem Stops.brace (rest : Text) : Stops ('\x7d'.toNat :: rest) :=
  fun _ h => Or.inr (Or.inr (Option.some.inj h).symm)

/-- No digit follows a value. -/
theorem Stops.span (h : Stops rest) (text : Text) :
    (text ++ rest).takeWhile isDigit = text.takeWhile isDigit ∧
      (text ++ rest).dropWhile isDigit = text.dropWhile isDigit ++ rest :=
  Py.takeWhile_append (fun code hcode => by rcases h code hcode with rfl | rfl | rfl <;> rfl) text

/-- What may follow a value is no part of a number. -/
theorem Stops.parts (h : Stops rest) : fracPart rest = ([], rest) ∧ expPart rest = ([], rest) := by
  cases rest with
  | nil => exact ⟨rfl, rfl⟩
  | cons code rest => rcases h code rfl with rfl | rfl | rfl <;> exact ⟨rfl, rfl⟩

/-- What may follow a value in an object. -/
def Ends (rest : Text) : Prop := ∃ text, rest = ','.toNat :: text ∨ rest = '\x7d'.toNat :: text

/-- What a digit is, as a character. -/
theorem isDigit_toNat (ch : Char) (h : ch.isDigit = true) : isDigit ch.toNat = true := by
  rw [Char.isDigit_iff_toNat] at h
  rw [isDigit, Bool.and_eq_true, decide_eq_true_eq, decide_eq_true_eq]
  have hlow : '0'.toNat = 48 := rfl
  have hhigh : '9'.toNat = 57 := rfl
  omega

theorem Ends.stops (h : Ends rest) : Stops rest := by
  obtain ⟨text, rfl | rfl⟩ := h
  · exact .comma text
  · exact .brace text

/-- The digits of a number, as code points. -/
def digitCodes (n : Nat) : Text := (Nat.toDigits 10 n).map Char.toNat

theorem isDigit_of_mem_digitCodes (h : code ∈ digitCodes n) : isDigit code = true := by
  obtain ⟨ch, hch, rfl⟩ := List.mem_map.mp h
  exact isDigit_toNat ch (Nat.isDigit_of_mem_toDigits (by decide) (by decide) hch)

theorem numberOf_digitCodes (n : Nat) : numberOf (digitCodes n) = n := by
  have hmap : (digitCodes n).map Char.ofNat = Nat.toDigits 10 n := by
    rw [digitCodes, List.map_map]
    calc (Nat.toDigits 10 n).map (Char.ofNat ∘ Char.toNat)
        = (Nat.toDigits 10 n).map id := by
          apply List.map_congr_left
          intro ch _
          exact Char.ofNat_toNat ch
      _ = Nat.toDigits 10 n := List.map_id _
  rw [numberOf, hmap, Nat.ofDigitChars_ten_toDigits]

theorem intPart_digitCodes (n : Nat) (hrest : Stops rest) :
    intPart (digitCodes n ++ rest) = some (digitCodes n, rest) := by
  have hall : ∀ code ∈ digitCodes n, isDigit code = true := fun _ h => isDigit_of_mem_digitCodes h
  have hspan := hrest.span (digitCodes n)
  rw [List.takeWhile_eq_self_iff.mpr hall, List.dropWhile_eq_nil_iff.mpr hall] at hspan
  by_cases hn : n = 0
  · rw [hn]
    rfl
  · obtain ⟨ch, digits, hdigits, hch⟩ := Lnpl.Lib.Py.head_toDigits hn
    have hcodes : digitCodes n = ch.toNat :: digits.map Char.toNat := by
      rw [digitCodes, hdigits]
      rfl
    have hzero : ch.toNat ≠ '0'.toNat := by
      intro heq
      apply hch
      exact Char.toNat_inj.mp heq
    have hdigit : isDigit ch.toNat = true := hall _ (hcodes ▸ List.mem_cons_self)
    rw [hcodes] at hspan ⊢
    rw [List.cons_append] at hspan ⊢
    rw [intPart, if_neg hzero, if_pos hdigit, hspan.1, hspan.2, List.nil_append]

/-- An int is read back from its text. -/
theorem scanNumber_int {n : Int} (h : (Nat.toDigits 10 n.natAbs).length ≤ intDigitsLimit)
    (hrest : Stops rest) :
    scanNumber (codes (toString n) ++ rest) = .ok (.int n, rest) := by
  have hbehind := hrest.parts
  have hlength : ¬intDigitsLimit < (digitCodes n.natAbs).length := by
    rw [digitCodes, List.length_map]
    omega
  have hsigned : ∀ sign : Text, ∀ text : Text, signPart text = (sign, digitCodes n.natAbs ++ rest) →
      scanNumber text =
        .ok (.int (if sign = [] then (n.natAbs : Int) else -(n.natAbs : Int)), rest) := by
    intro sign text hsign
    rw [scanNumber, hsign]
    dsimp only
    rw [intPart_digitCodes _ hrest]
    dsimp only
    rw [hbehind.1]
    dsimp only
    rw [hbehind.2, if_pos ⟨rfl, rfl⟩, if_neg hlength, numberOf_digitCodes]
  rw [Int.toString_eq_repr, Int.repr_eq_if]
  split
  · next hpos =>
    have habs : n.toNat = n.natAbs := by omega
    have htext : codes n.toNat.repr = digitCodes n.natAbs := by
      rw [codes, Nat.toList_repr, habs]
      rfl
    have hsign : signPart (digitCodes n.natAbs ++ rest) = ([], digitCodes n.natAbs ++ rest) := by
      cases hdigits : digitCodes n.natAbs with
      | nil =>
        cases rest with
        | nil => rfl
        | cons code rest =>
          refine if_neg ?_
          rcases hrest code rfl with rfl | rfl | rfl <;> decide
      | cons code digits =>
        refine if_neg ?_
        rintro rfl
        exact absurd (isDigit_of_mem_digitCodes (hdigits ▸ List.mem_cons_self)) (by decide)
    have hn : (n.natAbs : Int) = n := by omega
    rw [htext, hsigned [] _ hsign, if_pos rfl, hn]
  · next hneg =>
    have habs : (-n).toNat = n.natAbs := by omega
    have htext : codes ("-" ++ (-n).toNat.repr) = '-'.toNat :: digitCodes n.natAbs := by
      rw [codes, String.toList_append, List.map_append, Nat.toList_repr, habs]
      rfl
    have hsign : signPart ('-'.toNat :: digitCodes n.natAbs ++ rest) =
        (['-'.toNat], digitCodes n.natAbs ++ rest) := rfl
    have hn : -(n.natAbs : Int) = n := by omega
    rw [htext, hsigned _ _ hsign, if_neg (List.cons_ne_nil _ _), hn]

/-! ### Objects -/

/-- A str of scalar values, or an int short enough to be converted. -/
def Json.Plain : Json → Prop
  | .str text => ∀ code ∈ text, code.isValidChar
  | .int n => (Nat.toDigits 10 n.natAbs).length ≤ intDigitsLimit
  | _ => False

/-- Items of plain values. -/
def PlainFields (fields : Fields) : Prop :=
  ∀ entry ∈ fields, (∀ code ∈ entry.1, code.isValidChar) ∧ entry.2.Plain

/-- How the text of an int starts. -/
theorem codes_toString_int (n : Int) :
    ∃ code text, codes (toString n) = code :: text ∧ isDigit code = true ∨
      codes (toString n) = '-'.toNat :: code :: text ∧ isDigit code = true := by
  have hdigits : ∀ n : Nat, ∃ code text, digitCodes n = code :: text ∧ isDigit code = true := by
    intro n
    cases hcodes : digitCodes n with
    | nil =>
      have hne : Nat.toDigits 10 n ≠ [] := Nat.toDigits_ne_nil
      exact absurd (List.map_eq_nil_iff.mp hcodes) hne
    | cons code text =>
      exact ⟨code, text, rfl, isDigit_of_mem_digitCodes (hcodes ▸ List.mem_cons_self)⟩
  rw [Int.toString_eq_repr, Int.repr_eq_if]
  split
  · obtain ⟨code, text, hcodes, hcode⟩ := hdigits n.toNat
    refine ⟨code, text, Or.inl ⟨?_, hcode⟩⟩
    rw [codes, Nat.toList_repr]
    exact hcodes
  · obtain ⟨code, text, hcodes, hcode⟩ := hdigits (-n).toNat
    refine ⟨code, text, Or.inr ⟨?_, hcode⟩⟩
    rw [codes, String.toList_append, List.map_append, Nat.toList_repr]
    exact congrArg ('-'.toNat :: ·) hcodes

/-- No constant starts as an int does. -/
theorem scanConstant_int (n : Int) (rest : Text) :
    scanConstant (codes (toString n) ++ rest) = none := by
  have hdigit : ∀ code : Nat, isDigit code = true →
      ∀ letter : Nat, letter < 48 ∨ 57 < letter → (letter == code) = false := by
    intro code hcode letter hletter
    rw [isDigit, Bool.and_eq_true, decide_eq_true_eq, decide_eq_true_eq] at hcode
    rw [beq_eq_false_iff_ne]
    omega
  obtain ⟨code, text, ⟨htext, hcode⟩ | ⟨htext, hcode⟩⟩ := codes_toString_int n
  · rw [htext]
    have hn := hdigit code hcode 110 (by omega)
    have ht := hdigit code hcode 116 (by omega)
    have hf := hdigit code hcode 102 (by omega)
    have hN := hdigit code hcode 78 (by omega)
    have hI := hdigit code hcode 73 (by omega)
    have hm := hdigit code hcode 45 (by omega)
    simp [scanConstant, constants, codes, List.isPrefixOf?, hn, ht, hf, hN, hI, hm]
  · rw [htext]
    have hI := hdigit code hcode 73 (by omega)
    simp [scanConstant, constants, codes, List.isPrefixOf?, hI]

/-- The first code point of a plain value. -/
theorem head_write (h : value.Plain) :
    ∃ code text, value.write = code :: text ∧ isSpace code = false ∧ code ≠ '['.toNat ∧
      code ≠ '\x7b'.toNat ∧ code ≠ '\x7d'.toNat := by
  cases value with
  | str text => exact ⟨'"'.toNat, _, rfl, by decide⟩
  | int n =>
    obtain ⟨code, text, ⟨htext, hcode⟩ | ⟨htext, hcode⟩⟩ := codes_toString_int n
    · refine ⟨code, text, by rw [Json.write, htext], ?_⟩
      rw [isDigit, Bool.and_eq_true, decide_eq_true_eq, decide_eq_true_eq] at hcode
      have hbracket : '['.toNat = 91 := rfl
      have hopen : '\x7b'.toNat = 123 := rfl
      have hclose : '\x7d'.toNat = 125 := rfl
      simp only [isSpace, Bool.or_eq_false_iff, decide_eq_false_iff_not]
      omega
    · exact ⟨'-'.toNat, code :: text, by rw [Json.write, htext], by decide⟩
  | null | bool | float | list | dict => exact absurd h (by simp [Json.Plain])

theorem skipSpace_cons (text : Text) (h : isSpace code = false) :
    skipSpace (code :: text) = code :: text := by
  rw [skipSpace, List.dropWhile_cons, h]
  rfl

theorem skipSpace_write (h : value.Plain) (rest : Text) :
    skipSpace (value.write ++ rest) = value.write ++ rest := by
  obtain ⟨code, text, hwrite, hcode, -⟩ := head_write h
  rw [hwrite, List.cons_append, skipSpace_cons _ hcode]

/-- A plain value is read back from its text. -/
theorem scanOnce_write (room : Nat) (h : value.Plain) (hrest : Ends rest) :
    scanOnce room (value.write ++ rest) = .ok (value, rest) := by
  have hatom : scanAtom (value.write ++ rest) = .ok (value, rest) := by
    cases value with
    | str text =>
      rw [Json.write, writeText, List.cons_append, List.append_assoc, scanAtom, List.head?_cons,
        if_pos rfl, List.tail_cons, List.singleton_append, scanString_write h]
      rfl
    | int n =>
      have hhead : (codes (toString n) ++ rest).head? ≠ some '"'.toNat := by
        have hquote : isDigit '"'.toNat = false := rfl
        obtain ⟨code, text, ⟨htext, hcode⟩ | ⟨htext, -⟩⟩ := codes_toString_int n
        · rw [htext]
          intro heq
          rw [Option.some.inj heq, hquote] at hcode
          cases hcode
        · rw [htext]
          intro heq
          exact absurd (Option.some.inj heq) (by decide)
      rw [Json.write, scanAtom, if_neg hhead, scanConstant_int]
      exact scanNumber_int h hrest.stops
    | null | bool | float | list | dict => exact absurd h (by simp [Json.Plain])
  obtain ⟨code, text, hwrite, -, hbracket, hbrace, -⟩ := head_write h
  have hhead : ∀ other : Nat, code ≠ other → (value.write ++ rest).head? ≠ some other := by
    intro other hne heq
    rw [hwrite] at heq
    exact hne (Option.some.inj heq)
  cases room with
  | zero =>
    rw [scanOnce, if_neg, hatom]
    rintro (heq | heq)
    · exact hhead _ hbracket heq
    · exact hhead _ hbrace heq
  | succ room => rw [scanOnce, if_neg (hhead _ hbracket), if_neg (hhead _ hbrace), hatom]

/-- An item is read back from its text. -/
theorem scanField_write (room : Nat) {key : Text} (hkey : ∀ code ∈ key, code.isValidChar)
    (h : value.Plain) (hrest : Ends rest) :
    scanField (scanOnce room) (writeText key ++ codes ": " ++ value.write ++ rest) =
      .ok ((key, value), rest) := by
  have htext : writeText key ++ codes ": " ++ value.write ++ rest =
      '"'.toNat :: (key.flatMap escapeAscii ++ '"'.toNat ::
        (':'.toNat :: (' '.toNat :: (value.write ++ rest)))) := by
    rw [writeText]
    simp only [List.cons_append, List.append_assoc, List.nil_append]
    rfl
  have hcolon : skipSpace (':'.toNat :: (' '.toNat :: (value.write ++ rest))) =
      ':'.toNat :: (' '.toNat :: (value.write ++ rest)) := skipSpace_cons _ (by decide)
  have hspace : skipSpace (' '.toNat :: (value.write ++ rest)) = value.write ++ rest :=
    skipSpace_write h rest
  rw [htext, scanField, List.head?_cons, if_pos rfl, List.tail_cons, scanString_write hkey]
  dsimp only
  rw [hcolon, List.head?_cons, if_pos rfl, List.tail_cons, hspace, scanOnce_write room h hrest]
  rfl

/-- The items of an object are read back from their text. -/
theorem scanFields_write (room : Nat) (h : PlainFields fields) (hne : fields ≠ []) (rest : Text) :
    ∀ fuel, fields.length ≤ fuel →
      scanFields (scanOnce room) fuel (writeFields [] fields ++ '\x7d'.toNat :: rest) =
        .ok (fields, rest) := by
  induction fields with
  | nil => exact absurd rfl hne
  | cons entry fields ih =>
    obtain ⟨key, value⟩ := entry
    intro fuel hfuel
    obtain ⟨hkey, hvalue⟩ := h (key, value) List.mem_cons_self
    obtain ⟨fuel, rfl⟩ := Nat.exists_eq_add_of_le' (show 1 ≤ fuel from Nat.le_trans (by simp) hfuel)
    rw [List.length_cons] at hfuel
    cases fields with
    | nil =>
      have hends : Ends ('\x7d'.toNat :: rest) := ⟨rest, Or.inr rfl⟩
      have hfield := scanField_write room hkey hvalue hends
      have hclose : skipSpace ('\x7d'.toNat :: rest) = '\x7d'.toNat :: rest :=
        skipSpace_cons _ (by decide)
      rw [writeFields, writeFields, List.nil_append, List.append_nil, scanFields, hfield]
      dsimp only
      rw [hclose]
      rfl
    | cons other fields =>
      have hrest := ih (fun entry hentry => h entry (List.mem_cons_of_mem _ hentry))
        (List.cons_ne_nil _ _) fuel (by omega)
      have htext : writeFields [] ((key, value) :: other :: fields) ++ '\x7d'.toNat :: rest =
          writeText key ++ codes ": " ++ value.write ++ (','.toNat :: ' '.toNat ::
            (writeFields [] (other :: fields) ++ '\x7d'.toNat :: rest)) := by
        rw [writeFields, writeFields, writeFields, List.nil_append, List.nil_append]
        simp only [List.append_assoc]
        rfl
      have hends : Ends (','.toNat :: ' '.toNat ::
          (writeFields [] (other :: fields) ++ '\x7d'.toNat :: rest)) := ⟨_, Or.inl rfl⟩
      have hfield := scanField_write room hkey hvalue hends
      have hcomma : skipSpace (','.toNat :: ' '.toNat ::
          (writeFields [] (other :: fields) ++ '\x7d'.toNat :: rest)) = ','.toNat :: ' '.toNat ::
            (writeFields [] (other :: fields) ++ '\x7d'.toNat :: rest) :=
        skipSpace_cons _ (by decide)
      have hspace : skipSpace (' '.toNat ::
          (writeFields [] (other :: fields) ++ '\x7d'.toNat :: rest)) =
            writeFields [] (other :: fields) ++ '\x7d'.toNat :: rest := rfl
      rw [htext, scanFields, hfield]
      dsimp only
      rw [hcomma]
      dsimp only
      rw [if_neg (by decide), if_pos rfl, hspace, hrest]
      rfl

/-! ### Sorted keys -/

theorem textLe_self (text : Text) : textLe text text = true := by
  induction text with
  | nil => rfl
  | cons code text ih => rw [textLe, ih, decide_eq_true rfl, Bool.and_true, Bool.or_true]

theorem lookup_insertField (entry : Text × Json) (fields : Fields) (key : Text) :
    (insertField entry fields).lookup key =
      if key = entry.1 then some entry.2 else fields.lookup key := by
  induction fields with
  | nil =>
    rw [insertField, List.lookup_cons]
    by_cases hkey : key = entry.1
    · rw [if_pos hkey, beq_iff_eq.mpr hkey]
    · rw [if_neg hkey, beq_eq_false_iff_ne.mpr hkey]
  | cons other fields ih =>
    rw [insertField]
    by_cases hle : textLe entry.1 other.1 = true
    · rw [if_pos hle, List.lookup_cons]
      by_cases hkey : key = entry.1
      · rw [if_pos hkey, beq_iff_eq.mpr hkey]
      · rw [if_neg hkey, beq_eq_false_iff_ne.mpr hkey]
    · have hne : entry.1 ≠ other.1 := by
        intro heq
        exact hle (heq ▸ textLe_self entry.1)
      rw [if_neg hle, List.lookup_cons, List.lookup_cons, ih]
      by_cases hother : key = other.1
      · have hkey : key ≠ entry.1 := by
          intro heq
          exact hne (heq.symm.trans hother)
        rw [beq_iff_eq.mpr hother]
        exact (if_neg hkey).symm
      · rw [beq_eq_false_iff_ne.mpr hother]

/-- The order of the keys changes no item. -/
theorem field_sortedFields (fields : Fields) (key : String) :
    field (sortedFields fields) key = (field fields key).sorted := by
  have hlookup : ∀ key : Text,
      (sortedFields fields).lookup key = (fields.lookup key).map Json.sorted := by
    intro key
    induction fields with
    | nil => rfl
    | cons entry fields ih =>
      rw [sortedFields, lookup_insertField, ih, List.lookup_cons]
      by_cases hkey : key = entry.1
      · rw [if_pos hkey, beq_iff_eq.mpr hkey]
        rfl
      · rw [if_neg hkey, beq_eq_false_iff_ne.mpr hkey]
  rw [field, field, hlookup]
  cases fields.lookup (codes key) with
  | none => rfl
  | some value => rfl

theorem perm_insertField (entry : Text × Json) (fields : Fields) :
    (insertField entry fields).Perm (entry :: fields) := by
  induction fields with
  | nil => exact .refl _
  | cons other fields ih =>
    rw [insertField]
    by_cases hle : textLe entry.1 other.1 = true
    · rw [if_pos hle]
    · rw [if_neg hle]
      exact (ih.cons other).trans (.swap entry other fields)

theorem Json.Plain.sorted_eq (h : value.Plain) : value.sorted = value := by
  cases value with
  | str text => rw [Json.sorted] <;> simp
  | int n => rw [Json.sorted] <;> simp
  | null | bool | float | list | dict => exact absurd h (by simp [Json.Plain])

/-- The items of plain values, in another order. -/
theorem perm_sortedFields (h : PlainFields fields) : (sortedFields fields).Perm fields := by
  induction fields with
  | nil => exact .refl _
  | cons entry fields ih =>
    have hrest := ih fun other hother => h other (List.mem_cons_of_mem _ hother)
    rw [sortedFields, (h entry List.mem_cons_self).2.sorted_eq]
    exact (perm_insertField _ _).trans (hrest.cons _)

/-! ### Bytes of a text -/

/-- A text of ASCII characters. -/
def Ascii (text : Text) : Prop := ∀ code ∈ text, code < 128

instance (text : Text) : Decidable (Ascii text) :=
  inferInstanceAs (Decidable (∀ code ∈ text, code < 128))

theorem Ascii.append {text' : Text} (h : Ascii text) (h' : Ascii text') :
    Ascii (text ++ text') := by
  exact List.forall_mem_append.mpr ⟨h, h'⟩

theorem hexCode_lt (h : n < 16) : hexCode n < 128 := by
  rw [hexCode]
  split <;> omega

theorem ascii_unitEscape (h : unit < 0x10000) : Ascii (unitEscape unit) := by
  intro code hcode
  simp only [unitEscape, List.mem_cons, List.not_mem_nil, or_false] at hcode
  have hslash : '\\'.toNat < 128 := by decide
  have hu : 'u'.toNat < 128 := by decide
  rcases hcode with rfl | rfl | rfl | rfl | rfl | rfl
  · exact hslash
  · exact hu
  all_goals exact hexCode_lt (by omega)

theorem ascii_escapeAscii (h : code.isValidChar) : Ascii (escapeAscii code) := by
  have hlt : code < 0x110000 := by
    rcases h with h | h <;> omega
  unfold escapeAscii
  split_ifs
  · exact by decide
  · exact by decide
  · exact by decide
  · exact by decide
  · exact by decide
  · exact by decide
  · exact by decide
  · intro other hother
    rw [List.mem_singleton.mp hother]
    omega
  · exact ascii_unitEscape (by omega)
  · exact (ascii_unitEscape (by omega)).append (ascii_unitEscape (by omega))

theorem ascii_writeText (h : ∀ code ∈ text, code.isValidChar) : Ascii (writeText text) := by
  intro code hcode
  have hquote : '"'.toNat < 128 := by decide
  rw [writeText, List.mem_cons, List.mem_append, List.mem_singleton] at hcode
  rcases hcode with rfl | hcode | rfl
  · exact hquote
  · obtain ⟨other, hother, hcode⟩ := List.mem_flatMap.mp hcode
    exact ascii_escapeAscii (h other hother) code hcode
  · exact hquote

theorem ascii_digitCodes (n : Nat) : Ascii (digitCodes n) := by
  intro code hcode
  have hdigit := isDigit_of_mem_digitCodes hcode
  rw [isDigit, Bool.and_eq_true, decide_eq_true_eq, decide_eq_true_eq] at hdigit
  omega

/-- The text of a plain value is ASCII. -/
theorem ascii_write (h : value.Plain) : Ascii value.write := by
  cases value with
  | str text => exact ascii_writeText h
  | int n =>
    rw [Json.write, Int.toString_eq_repr, Int.repr_eq_if]
    split
    · rw [codes, Nat.toList_repr]
      exact ascii_digitCodes _
    · rw [codes, String.toList_append, List.map_append, Nat.toList_repr]
      exact Ascii.append (by decide) (ascii_digitCodes _)
  | null | bool | float | list | dict => exact absurd h (by simp [Json.Plain])

theorem ascii_writeFields (h : PlainFields fields) :
    ∀ sep, Ascii sep → Ascii (writeFields sep fields) := by
  induction fields with
  | nil =>
    intro sep _ code hcode
    rw [writeFields] at hcode
    cases hcode
  | cons entry fields ih =>
    intro sep hsep
    obtain ⟨hkey, hvalue⟩ := h entry List.mem_cons_self
    have hrest := ih (fun other hother => h other (List.mem_cons_of_mem _ hother)) (codes ", ")
      (by decide)
    rw [writeFields]
    exact hsep.append ((((ascii_writeText hkey).append (by decide)).append
      (ascii_write hvalue)).append hrest)

/-- The text of an object of plain values is ASCII. -/
theorem ascii_write_dict (h : PlainFields fields) : Ascii (Json.dict fields).write := by
  have hopen : Ascii ['\x7b'.toNat] := by decide
  have hclose : Ascii ['\x7d'.toNat] := by decide
  rw [Json.write]
  exact hopen.append ((ascii_writeFields h [] (by decide)).append hclose)

theorem encodeUtf8_ascii (h : Ascii text) : encodeUtf8 text = text.map UInt8.ofNat := by
  have hcode : ∀ code : Fin 128,
      String.utf8EncodeChar (Char.ofNat code.val) = [UInt8.ofNat code.val] := by decide
  induction text with
  | nil => rfl
  | cons code text ih =>
    have hlt := h code List.mem_cons_self
    have hrest := ih fun other hother => h other (List.mem_cons_of_mem _ hother)
    rw [encodeUtf8] at hrest ⊢
    rw [List.flatMap_cons, hcode ⟨code, hlt⟩, hrest]
    rfl

/-- An ASCII text is read back from its bytes. -/
theorem decodeUtf8_encodeUtf8 (h : Ascii text) : decodeUtf8 (encodeUtf8 text) = some text := by
  rw [encodeUtf8_ascii h]
  induction text with
  | nil => rfl
  | cons code text ih =>
    have hlt := h code List.mem_cons_self
    have hrest := ih fun other hother => h other (List.mem_cons_of_mem _ hother)
    have hcode : (UInt8.ofNat code).toNat = code := by
      rw [UInt8.toNat_ofNat']
      omega
    rw [List.map_cons, decodeUtf8.eq_def]
    dsimp only
    rw [hcode, if_pos hlt, hrest]
    rfl

theorem setItem_append {key : Text} (h : key ∉ fields.map Prod.fst) :
    setItem fields key value = fields ++ [(key, value)] :=
  if_neg h

/-- Items with different keys are those of the dict. -/
theorem dictOf_eq {items : Fields} (h : (items.map Prod.fst).Nodup) : dictOf items = items :=
  Py.foldl_append (fun _ _ hitem => setItem_append hitem) items [] h

theorem length_le_writeFields (sep : Text) (fields : Fields) :
    fields.length ≤ (writeFields sep fields).length := by
  induction fields generalizing sep with
  | nil => exact Nat.zero_le _
  | cons entry fields ih =>
    have hrest := ih (codes ", ")
    rw [writeFields, writeText]
    simp only [List.length_append, List.length_cons]
    omega

/-- An object of plain values, each key once, is read back from the bytes of its text. -/
theorem loads_write (codecs : Codecs) (room : Nat) {entry : Text × Json}
    (h : PlainFields (entry :: fields)) (hnodup : ((entry :: fields).map Prod.fst).Nodup) :
    loads codecs (room + 1) (encodeUtf8 (Json.dict (entry :: fields)).write) =
      .ok (.dict (entry :: fields)) := by
  have hascii := ascii_write_dict h
  obtain ⟨text, htext⟩ : ∃ text, writeFields [] (entry :: fields) = '"'.toNat :: text := ⟨_, rfl⟩
  have hwrite : (Json.dict (entry :: fields)).write =
      '\x7b'.toNat :: '"'.toNat :: (text ++ ['\x7d'.toNat]) := by
    rw [Json.write, htext]
    rfl
  have hdecode : decodeText codecs (encodeUtf8 (Json.dict (entry :: fields)).write) =
      some (Json.dict (entry :: fields)).write := by
    have hdetect : detectEncoding (encodeUtf8 (Json.dict (entry :: fields)).write) = .utf8 := by
      rw [encodeUtf8_ascii hascii, hwrite]
      exact Lnpl.Lib.Py.detectEncoding_ascii _ (by decide) (by decide)
    rw [decodeText, hdetect]
    exact decodeUtf8_encodeUtf8 hascii
  have hlength := length_le_writeFields [] (entry :: fields)
  have hquote : skipSpace ('"'.toNat :: (text ++ ['\x7d'.toNat])) =
      '"'.toNat :: (text ++ ['\x7d'.toNat]) := skipSpace_cons _ (by decide)
  have hfields := scanFields_write room h (List.cons_ne_nil _ _) []
    (('"'.toNat :: (text ++ ['\x7d'.toNat])).length + 1) (by
      rw [htext] at hlength
      simp only [List.length_cons, List.length_append] at hlength ⊢
      omega)
  rw [htext] at hfields
  rw [loads, hdecode, hwrite]
  dsimp only
  rw [skipSpace_cons _ (by decide), scanOnce, List.head?_cons, if_neg (by decide), if_pos rfl,
    List.tail_cons, scanObject, hquote, List.head?_cons, if_neg (by decide)]
  rw [List.cons_append] at hfields
  rw [hfields, Except.map, dictOf_eq hnodup]
  rfl

/-- **Round trip**: an object of plain values, each key once, is read back from the bytes of its
text with sorted keys. -/
theorem loads_dumps (codecs : Codecs) (room : Nat) (h : PlainFields fields)
    (hnodup : (fields.map Prod.fst).Nodup) (hne : fields ≠ []) :
    loads codecs (room + 1) (encodeUtf8 (dumps (.dict fields))) =
      .ok (.dict (sortedFields fields)) := by
  have hperm := perm_sortedFields h
  have hplain : PlainFields (sortedFields fields) := by
    intro entry hentry
    exact h entry (hperm.mem_iff.mp hentry)
  have hkeys : ((sortedFields fields).map Prod.fst).Nodup :=
    (hperm.map Prod.fst).nodup_iff.mpr hnodup
  rw [dumps, Json.sorted]
  cases hsorted : sortedFields fields with
  | nil =>
    rw [hsorted] at hperm
    exact absurd hperm.nil_eq.symm hne
  | cons entry items =>
    rw [hsorted] at hplain hkeys
    exact loads_write codecs room hplain hkeys

end Lnpl.Lib.JsonText
