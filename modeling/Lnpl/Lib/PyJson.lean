import Mathlib.Data.List.TakeWhile
import Lnpl.Lib.PyValues

/-!
# JSON texts in Python

`json.dumps(value, ensure_ascii=False)` and `json.loads` of bytes.  What a float literal is read as,
and the encodings beside UTF-8 that `json.loads` detects, are a parameter.  What no value stands for
is refused: a lone surrogate in a text, and the floats that are not finite.

A value that JSON can hold is read back from its text (`loads_write`).
-/

namespace Lnpl.Lib.Py

/-- What `json.detect_encoding` answers. -/
inductive Encoding where
  | utf8
  | utf8Sig
  | utf16
  | utf16BE
  | utf16LE
  | utf32
  | utf32BE
  | utf32LE
  deriving DecidableEq, Repr

/-- What reading JSON takes from the running Python. -/
structure Reader where
  /-- the value of a float literal, and its `repr` -/
  float : List Char → Option (Rat × String)
  /-- the text of bytes in an encoding other than UTF-8 -/
  decode : Encoding → List UInt8 → Option (List Char)

/-! ### Writing -/

/-- A text in quotes. -/
def writeText (s : String) : List Char := '"' :: (s.toList.flatMap escape ++ ['"'])

mutual

/-- `json.dumps(value, ensure_ascii=False)`. -/
def Value.write : Value → List Char
  | .none => ['n', 'u', 'l', 'l']
  | .bool true => ['t', 'r', 'u', 'e']
  | .bool false => ['f', 'a', 'l', 's', 'e']
  | .int n => (toString n).toList
  | .float _ text => text.toList
  | .str s => writeText s
  | .list items => '[' :: (writeItems [] items ++ [']'])
  | .dict fields => '\x7b' :: (writeFields [] fields ++ ['\x7d'])

/-- The items, `sep` before the first. -/
def writeItems (sep : List Char) : List Value → List Char
  | [] => []
  | value :: items => sep ++ (value.write ++ writeItems [',', ' '] items)

def writeFields (sep : List Char) : Fields → List Char
  | [] => []
  | (key, value) :: fields =>
    sep ++ (writeText key ++ ':' :: ' ' :: (value.write ++ writeFields [',', ' '] fields))

end

/-- The bytes of a text. -/
def utf8 (text : List Char) : List UInt8 := (String.ofList text).toUTF8.data.toList

/-! ### Reading -/

def isJsonSpace (ch : Char) : Bool := ch = ' ' || ch = '\t' || ch = '\n' || ch = '\r'

def skipSpace (text : List Char) : List Char := text.dropWhile isJsonSpace

/-- The value of a hexadecimal digit. -/
def hexValue (ch : Char) : Option Nat :=
  if 48 ≤ ch.toNat ∧ ch.toNat ≤ 57 then some (ch.toNat - 48)
  else if 97 ≤ ch.toNat ∧ ch.toNat ≤ 102 then some (ch.toNat - 87)
  else if 65 ≤ ch.toNat ∧ ch.toNat ≤ 70 then some (ch.toNat - 55)
  else none

/-- The number in four hexadecimal digits. -/
def hex4 (a b d e : Char) : Option Nat := do
  return (((← hexValue a) * 16 + (← hexValue b)) * 16 + (← hexValue d)) * 16 + (← hexValue e)

/-- The character of an escape of two characters. -/
def unescape (ch : Char) : Option Char :=
  if ch = '"' ∨ ch = '\\' ∨ ch = '/' then some ch
  else if ch = 'b' then some (Char.ofNat 8)
  else if ch = 'f' then some (Char.ofNat 12)
  else if ch = 'n' then some '\n'
  else if ch = 'r' then some '\r'
  else if ch = 't' then some '\t'
  else none

/-- A code unit behind a high surrogate, if there was one: the high surrogate that waits for the
next unit, and the character. -/
def codeUnit (high : Option Nat) (unit : Nat) : Option (Option Nat × List Char) :=
  match high with
  | some high =>
    if 0xdc00 ≤ unit ∧ unit ≤ 0xdfff then
      some (none, [Char.ofNat (0x10000 + (high - 0xd800) * 0x400 + (unit - 0xdc00))])
    else none
  | none =>
    if 0xd800 ≤ unit ∧ unit ≤ 0xdbff then some (some unit, [])
    else if 0xdc00 ≤ unit ∧ unit ≤ 0xdfff then none
    else some (none, [Char.ofNat unit])

/-- `scanstring`, behind the opening quote, or behind the high surrogate `high`. -/
def scanString (high : Option Nat) : List Char → Option (List Char × List Char)
  | [] => none
  | '\\' :: 'u' :: a :: b :: d :: e :: rest =>
    match (hex4 a b d e).bind (codeUnit high) with
    | none => none
    | some (high, chars) => (scanString high rest).map fun read => (chars ++ read.1, read.2)
  | '\\' :: ch :: rest =>
    match high, unescape ch with
    | none, some ch => (scanString none rest).map fun read => (ch :: read.1, read.2)
    | _, _ => none
  | ch :: rest =>
    if high.isSome ∨ ch.toNat < 32 ∨ ch = '\\' then none
    else if ch = '"' then some ([], rest)
    else (scanString none rest).map fun read => (ch :: read.1, read.2)

/-- The sign of a number. -/
def signPart : List Char → List Char × List Char
  | [] => ([], [])
  | ch :: rest => if ch = '-' then ([ch], rest) else ([], ch :: rest)

/-- The digits before the point; a leading zero stands alone. -/
def intPart : List Char → Option (List Char × List Char)
  | [] => none
  | ch :: rest =>
    if ch = '0' then some (['0'], rest)
    else if ch.isDigit then
      some ((ch :: rest).takeWhile Char.isDigit, (ch :: rest).dropWhile Char.isDigit)
    else none

/-- The digits behind `mark` and `sign`; without a digit, there is nothing behind the number. -/
def digitsBehind (mark : Char) (sign text rest : List Char) : List Char × List Char :=
  if rest.takeWhile Char.isDigit = [] then ([], text)
  else (mark :: (sign ++ rest.takeWhile Char.isDigit), rest.dropWhile Char.isDigit)

/-- The point and the digits behind it, if there is one. -/
def fracPart : List Char → List Char × List Char
  | [] => ([], [])
  | ch :: rest => if ch = '.' then digitsBehind ch [] (ch :: rest) rest else ([], ch :: rest)

/-- The sign of an exponent. -/
def expSign : List Char → List Char × List Char
  | [] => ([], [])
  | ch :: rest => if ch = '+' ∨ ch = '-' then ([ch], rest) else ([], ch :: rest)

/-- The exponent, if there is one. -/
def expPart : List Char → List Char × List Char
  | [] => ([], [])
  | e :: rest =>
    if e = 'e' ∨ e = 'E' then digitsBehind e (expSign rest).1 (e :: rest) (expSign rest).2
    else ([], e :: rest)

/-- The longest decimal text that `int` converts, and that it is converted to. -/
def intDigitsLimit : Nat := 4300

/-- The number of its parts. -/
def numberOf (reader : Reader) (sign int frac exp : List Char) : Option Value :=
  if frac = [] ∧ exp = [] then
    if intDigitsLimit < int.length then none
    else if sign = [] then some (.int (Nat.ofDigitChars 10 int 0))
    else some (.int (-(Nat.ofDigitChars 10 int 0 : Int)))
  else (reader.float (sign ++ int ++ frac ++ exp)).map fun read => .float read.1 read.2

/-- `_match_number_unicode`. -/
def scanNumber (reader : Reader) (text : List Char) : Option (Value × List Char) :=
  let sign := signPart text
  match intPart sign.2 with
  | none => none
  | some int =>
    let frac := fracPart int.2
    let exp := expPart frac.2
    (numberOf reader sign.1 int.1 frac.1 exp.1).map fun value => (value, exp.2)

/-- `fields[key] = value`. -/
def setItem (fields : Fields) (key : String) (value : Value) : Fields :=
  if (field? fields key).isSome then
    fields.map fun item => if item.1 = key then (key, value) else item
  else fields ++ [(key, value)]

/-- `dict(items)`. -/
def dictOf (items : Fields) : Fields :=
  items.foldl (fun fields item => setItem fields item.1 item.2) []

mutual

/-- `scan_once`; twice as much fuel as there are characters is enough. -/
def scanOnce (reader : Reader) : Nat → List Char → Option (Value × List Char)
  | 0, _ => none
  | fuel + 1, text =>
    match text with
    | '"' :: rest => (scanString none rest).map fun read => (.str (String.ofList read.1), read.2)
    | '\x7b' :: rest =>
      match skipSpace rest with
      | '\x7d' :: rest => some (.dict [], rest)
      | rest => (scanFields reader fuel rest).map fun read => (.dict (dictOf read.1), read.2)
    | '[' :: rest =>
      match skipSpace rest with
      | ']' :: rest => some (.list [], rest)
      | rest => (scanItems reader fuel rest).map fun read => (.list read.1, read.2)
    | 'n' :: 'u' :: 'l' :: 'l' :: rest => some (.none, rest)
    | 't' :: 'r' :: 'u' :: 'e' :: rest => some (.bool true, rest)
    | 'f' :: 'a' :: 'l' :: 's' :: 'e' :: rest => some (.bool false, rest)
    | text => scanNumber reader text

/-- The items of an array, of which there is one. -/
def scanItems (reader : Reader) : Nat → List Char → Option (List Value × List Char)
  | 0, _ => none
  | fuel + 1, text =>
    match scanOnce reader fuel text with
    | none => none
    | some (value, rest) =>
      match skipSpace rest with
      | ']' :: rest => some ([value], rest)
      | ',' :: rest =>
        (scanItems reader fuel (skipSpace rest)).map fun read => (value :: read.1, read.2)
      | _ => none

/-- The items of an object, of which there is one. -/
def scanFields (reader : Reader) : Nat → List Char → Option (Fields × List Char)
  | 0, _ => none
  | fuel + 1, text =>
    match text with
    | '"' :: rest =>
      match scanString none rest with
      | none => none
      | some (key, rest) =>
        match skipSpace rest with
        | ':' :: rest =>
          match scanOnce reader fuel (skipSpace rest) with
          | none => none
          | some (value, rest) =>
            match skipSpace rest with
            | '\x7d' :: rest => some ([(String.ofList key, value)], rest)
            | ',' :: rest =>
              (scanFields reader fuel (skipSpace rest)).map fun read =>
                ((String.ofList key, value) :: read.1, read.2)
            | _ => none
        | _ => none
    | _ => none

end

/-- `json.detect_encoding`. -/
def detectEncoding (bytes : List UInt8) : Encoding :=
  if [0, 0, 0xfe, 0xff].isPrefixOf bytes || [0xff, 0xfe, 0, 0].isPrefixOf bytes then .utf32
  else if [0xfe, 0xff].isPrefixOf bytes || [0xff, 0xfe].isPrefixOf bytes then .utf16
  else if [0xef, 0xbb, 0xbf].isPrefixOf bytes then .utf8Sig
  else
    match bytes with
    | a :: b :: d :: e :: _ =>
      if a = 0 then if b = 0 then .utf32BE else .utf16BE
      else if b = 0 then if d = 0 ∧ e = 0 then .utf32LE else .utf16LE
      else .utf8
    | [a, b] => if a = 0 then .utf16BE else if b = 0 then .utf16LE else .utf8
    | _ => .utf8

/-- The text of the bytes. -/
def decodeBytes (reader : Reader) (bytes : List UInt8) : Option (List Char) :=
  match detectEncoding bytes with
  | .utf8 => (String.fromUTF8? ⟨bytes.toArray⟩).map String.toList
  | encoding => reader.decode encoding bytes

/-- `json.loads(bytes)`, `none` for the `ValueError`. -/
def loads (reader : Reader) (bytes : List UInt8) : Option Value :=
  match decodeBytes reader bytes with
  | none => none
  | some text =>
    match scanOnce reader (2 * text.length + 2) (skipSpace text) with
    | none => none
    | some (value, rest) => if skipSpace rest = [] then some value else none

/-! ### Texts -/

variable {n fuel : Nat} {ch : Char} {rest text after : List Char} {reader : Reader} {value : Value}
  {key : String}

theorem hexValue_hexDigit (h : n < 16) : hexValue (hexDigit n) = some n := by
  have hall : ∀ n : Fin 16, hexValue (hexDigit n) = some n.val := by decide
  exact hall ⟨n, h⟩

/-- A control character is read back from its four digits. -/
theorem hex4_control (h : ch.toNat < 32) :
    hex4 '0' '0' (hexDigit (ch.toNat / 16)) (hexDigit (ch.toNat % 16)) = some ch.toNat := by
  have hzero : hexValue '0' = some 0 := rfl
  have hhigh := hexValue_hexDigit (n := ch.toNat / 16) (by omega)
  have hlow := hexValue_hexDigit (n := ch.toNat % 16) (by omega)
  rw [hex4, hzero, hhigh, hlow]
  show some (((0 * 16 + 0) * 16 + ch.toNat / 16) * 16 + ch.toNat % 16) = some ch.toNat
  congr 1
  omega

/-- A character is read back from what is written for it. -/
theorem scanString_escape (ch : Char) (rest : List Char) :
    scanString none (escape ch ++ rest) =
      (scanString none rest).map fun read => (ch :: read.1, read.2) := by
  unfold escape
  split
  · next h => rw [h]; rfl
  split
  · next h => rw [h]; rfl
  split
  · next h => rw [h]; rfl
  split
  · next h => rw [h]; rfl
  split
  · next h => rw [h]; rfl
  split
  · next h =>
    have hch : Char.ofNat 8 = ch := by rw [← h, Char.ofNat_toNat]
    rw [← hch]
    rfl
  split
  · next h =>
    have hch : Char.ofNat 12 = ch := by rw [← h, Char.ofNat_toNat]
    rw [← hch]
    rfl
  split
  · next h =>
    have hunit : codeUnit none ch.toNat = some (none, [ch]) := by
      rw [codeUnit, if_neg (by omega), if_neg (by omega), Char.ofNat_toNat]
    rw [List.cons_append, List.cons_append, List.cons_append, List.cons_append, List.cons_append,
      List.cons_append, List.nil_append, scanString, hex4_control h, Option.bind_some, hunit]
    rfl
  · next hquote hslash _ _ _ _ _ hcontrol =>
    rw [List.cons_append, List.nil_append, scanString.eq_def]
    split
    · next heq => cases heq
    · next heq => exact absurd (List.cons.inj heq).1 hslash
    · next heq => exact absurd (List.cons.inj heq).1 hslash
    · next heq =>
      obtain ⟨rfl, rfl⟩ := List.cons.inj heq
      rw [if_neg, if_neg hquote]
      rintro (h | h | h)
      · cases h
      · exact hcontrol h
      · exact hslash h

theorem scanString_write (s : String) (rest : List Char) :
    scanString none (s.toList.flatMap escape ++ '"' :: rest) = some (s.toList, rest) := by
  induction s.toList with
  | nil => rfl
  | cons ch chars ih =>
    rw [List.flatMap_cons, List.append_assoc, scanString_escape, ih]
    rfl

theorem writeText_append (s : String) (rest : List Char) :
    writeText s ++ rest = '"' :: (s.toList.flatMap escape ++ '"' :: rest) := by
  rw [writeText, List.cons_append, List.append_assoc]
  rfl

/-! ### Numbers -/

/-- What may follow a number. -/
def Ends (rest : List Char) : Prop :=
  rest = [] ∨ ∃ text, rest = ',' :: text ∨ rest = ']' :: text ∨ rest = '\x7d' :: text

theorem takeWhile_append {α : Type} {p : α → Bool} {rest : List α}
    (h : ∀ ch ∈ rest.head?, p ch = false) (text : List α) :
    (text ++ rest).takeWhile p = text.takeWhile p ∧
      (text ++ rest).dropWhile p = text.dropWhile p ++ rest := by
  induction text with
  | nil =>
    cases rest with
    | nil => exact ⟨rfl, rfl⟩
    | cons ch rest =>
      have hch := h ch rfl
      rw [List.nil_append, List.takeWhile_cons, List.dropWhile_cons, hch]
      exact ⟨rfl, rfl⟩
  | cons ch text ih =>
    rw [List.cons_append, List.takeWhile_cons, List.dropWhile_cons, List.takeWhile_cons,
      List.dropWhile_cons]
    cases p ch with
    | false => exact ⟨rfl, rfl⟩
    | true => exact ⟨by rw [if_pos rfl, if_pos rfl, ih.1], by rw [if_pos rfl, if_pos rfl, ih.2]⟩

theorem Ends.head {rest : List Char} (h : Ends rest) :
    ∀ ch ∈ rest.head?, ch = ',' ∨ ch = ']' ∨ ch = '\x7d' := by
  rcases h with rfl | ⟨text, rfl | rfl | rfl⟩
  · exact fun _ h => nomatch h
  · exact fun ch hch => Or.inl (Option.some.inj hch).symm
  · exact fun ch hch => Or.inr (Or.inl (Option.some.inj hch).symm)
  · exact fun ch hch => Or.inr (Or.inr (Option.some.inj hch).symm)

theorem Ends.isDigit (h : Ends rest) : ∀ ch ∈ rest.head?, ch.isDigit = false := by
  intro ch hch
  rcases h.head ch hch with rfl | rfl | rfl <;> rfl

theorem intPart_append {digits : List Char} (h : intPart text = some (digits, after))
    (hrest : Ends rest) : intPart (text ++ rest) = some (digits, after ++ rest) := by
  cases text with
  | nil => cases h
  | cons ch text =>
    rw [List.cons_append]
    rw [intPart] at h ⊢
    split at h
    · next hzero =>
      obtain ⟨rfl, rfl⟩ := Prod.mk.inj (Option.some.inj h)
      rw [if_pos hzero]
    · next hzero =>
      rw [if_neg hzero]
      split at h
      · next hdigit =>
        obtain ⟨rfl, rfl⟩ := Prod.mk.inj (Option.some.inj h)
        have happend := takeWhile_append hrest.isDigit (ch :: text)
        rw [if_pos hdigit, ← List.cons_append, happend.1, happend.2]
      · cases h

theorem digitsBehind_append (mark : Char) (sign text rest' : List Char) (hrest : Ends rest) :
    digitsBehind mark sign (text ++ rest) (rest' ++ rest) =
      ((digitsBehind mark sign text rest').1, (digitsBehind mark sign text rest').2 ++ rest) := by
  have happend := takeWhile_append hrest.isDigit rest'
  unfold digitsBehind
  rw [happend.1, happend.2]
  split <;> rfl

theorem fracPart_append (text : List Char) (hrest : Ends rest) :
    fracPart (text ++ rest) = ((fracPart text).1, (fracPart text).2 ++ rest) := by
  cases text with
  | nil =>
    cases rest with
    | nil => rfl
    | cons ch rest => exact if_neg (by rcases hrest.head ch rfl with rfl | rfl | rfl <;> decide)
  | cons ch text =>
    rw [List.cons_append, fracPart, fracPart]
    split
    · exact digitsBehind_append _ _ (ch :: text) _ hrest
    · rfl

theorem expSign_append (text : List Char) (hrest : Ends rest) :
    expSign (text ++ rest) = ((expSign text).1, (expSign text).2 ++ rest) := by
  cases text with
  | nil =>
    cases rest with
    | nil => rfl
    | cons ch rest => exact if_neg (by rcases hrest.head ch rfl with rfl | rfl | rfl <;> decide)
  | cons ch text =>
    rw [List.cons_append, expSign, expSign]
    split <;> rfl

theorem expPart_append (text : List Char) (hrest : Ends rest) :
    expPart (text ++ rest) = ((expPart text).1, (expPart text).2 ++ rest) := by
  cases text with
  | nil =>
    cases rest with
    | nil => rfl
    | cons ch rest => exact if_neg (by rcases hrest.head ch rfl with rfl | rfl | rfl <;> decide)
  | cons e text =>
    rw [List.cons_append, expPart, expPart, expSign_append text hrest]
    split
    · exact digitsBehind_append _ _ (e :: text) _ hrest
    · rfl

/-- A number is read as it is when nothing follows. -/
theorem scanNumber_append (h : scanNumber reader text = some (value, after)) (hrest : Ends rest) :
    scanNumber reader (text ++ rest) = some (value, after ++ rest) := by
  have hsign : signPart (text ++ rest) = ((signPart text).1, (signPart text).2 ++ rest) := by
    cases text with
    | nil => cases h
    | cons ch text =>
      rw [List.cons_append, signPart, signPart]
      split <;> rfl
  rw [scanNumber] at h ⊢
  rw [hsign]
  cases hint : intPart (signPart text).2 with
  | none =>
    rw [hint] at h
    cases h
  | some int =>
    rw [hint] at h
    obtain ⟨number, hnumber, heq⟩ := Option.map_eq_some_iff.mp h
    obtain ⟨rfl, rfl⟩ := Prod.mk.inj heq
    rw [intPart_append hint hrest]
    dsimp only
    rw [fracPart_append _ hrest, expPart_append _ hrest, hnumber]
    rfl

/-- A number starts with its sign or a digit. -/
theorem head_of_scanNumber {read : Value × List Char} (h : scanNumber reader text = some read) :
    ∃ ch rest, text = ch :: rest ∧ (ch = '-' ∨ ch.isDigit = true) := by
  cases text with
  | nil => cases h
  | cons ch rest =>
    refine ⟨ch, rest, rfl, ?_⟩
    by_cases hsign : ch = '-'
    · exact Or.inl hsign
    · right
      by_contra hdigit
      rw [scanNumber, signPart, if_neg hsign] at h
      dsimp only at h
      rw [intPart, if_neg, if_neg hdigit] at h
      · cases h
      · rintro rfl
        exact hdigit rfl

/-- No number is written with a leading zero. -/
theorem head_toDigits (h : n ≠ 0) : ∃ ch digits, Nat.toDigits 10 n = ch :: digits ∧ ch ≠ '0' := by
  induction n using Nat.strongRecOn with
  | _ n ih =>
    by_cases hlt : n < 10
    · exact ⟨n.digitChar, [], Nat.toDigits_of_lt_base hlt,
        fun hch => h (Nat.digitChar_eq_zero.mp hch)⟩
    · obtain ⟨ch, digits, hdigits, hch⟩ := ih (n / 10) (by omega) (by omega)
      refine ⟨ch, digits ++ [(n % 10).digitChar], ?_, hch⟩
      rw [Nat.toDigits_of_base_le (by decide) (by omega), hdigits, List.cons_append]

theorem isDigit_of_mem_toDigits (h : ch ∈ Nat.toDigits 10 n) : ch.isDigit = true :=
  Nat.isDigit_of_mem_toDigits (by decide) (by decide) h

theorem intPart_toDigits (n : Nat) :
    intPart (Nat.toDigits 10 n) = some (Nat.toDigits 10 n, []) := by
  by_cases hn : n = 0
  · rw [hn]
    rfl
  · obtain ⟨ch, digits, hdigits, hch⟩ := head_toDigits hn
    have hall : ∀ d ∈ ch :: digits, d.isDigit = true := fun d hd =>
      isDigit_of_mem_toDigits (hdigits ▸ hd)
    rw [hdigits, intPart, if_neg hch, if_pos (hall ch List.mem_cons_self),
      List.takeWhile_eq_self_iff.mpr hall, List.dropWhile_eq_nil_iff.mpr hall]

/-- A number is read back from its digits. -/
theorem scanNumber_int {n : Int} (h : (Nat.toDigits 10 n.natAbs).length ≤ intDigitsLimit) :
    scanNumber reader (toString n).toList = some (.int n, []) := by
  have hsigned : ∀ sign : List Char, ∀ digits : List Char, digits = Nat.toDigits 10 n.natAbs →
      numberOf reader sign digits [] [] =
        some (.int (if sign = [] then (n.natAbs : Int) else -(n.natAbs : Int))) := by
    intro sign digits hdigits
    rw [numberOf, if_pos ⟨rfl, rfl⟩, if_neg (by rw [hdigits]; omega), hdigits,
      Nat.ofDigitChars_ten_toDigits]
    split <;> rfl
  have hint := intPart_toDigits n.natAbs
  rw [Int.toString_eq_repr, Int.repr_eq_if]
  split
  · next hpos =>
    have habs : n.toNat = n.natAbs := by omega
    rw [habs, Nat.toList_repr]
    have hsign : signPart (Nat.toDigits 10 n.natAbs) = ([], Nat.toDigits 10 n.natAbs) := by
      cases hdigits : Nat.toDigits 10 n.natAbs with
      | nil => rfl
      | cons ch digits =>
        refine if_neg ?_
        rintro rfl
        exact absurd (isDigit_of_mem_toDigits (hdigits ▸ List.mem_cons_self)) (by decide)
    rw [scanNumber, hsign]
    dsimp only
    rw [hint]
    dsimp only
    rw [fracPart]
    dsimp only
    rw [expPart, hsigned [] _ rfl, if_pos rfl]
    have hn : (n.natAbs : Int) = n := by omega
    rw [hn]
    rfl
  · next hneg =>
    have habs : (-n).toNat = n.natAbs := by omega
    rw [habs, String.toList_append, Nat.toList_repr]
    have hsign : signPart ("-".toList ++ Nat.toDigits 10 n.natAbs) =
        (['-'], Nat.toDigits 10 n.natAbs) := rfl
    rw [scanNumber, hsign]
    dsimp only
    rw [hint]
    dsimp only
    rw [fracPart]
    dsimp only
    rw [expPart, hsigned ['-'] _ rfl, if_neg (List.cons_ne_nil _ _)]
    have hn : -(n.natAbs : Int) = n := by omega
    rw [hn]
    rfl

/-! ### Objects -/

theorem setItem_append {fields : Fields} (h : key ∉ fields.map Prod.fst) :
    setItem fields key value = fields ++ [(key, value)] := by
  have hnone : field? fields key = Option.none := by
    rw [field?, List.lookup_eq_none_iff]
    intro item hitem
    rw [bne_iff_ne]
    rintro rfl
    exact h (List.mem_map_of_mem hitem)
  rw [setItem, hnone]
  rfl

/-- Items with different keys are appended one by one. -/
theorem foldl_append {κ β : Type} {set : List (κ × β) → κ × β → List (κ × β)}
    (hset : ∀ fields item, item.1 ∉ fields.map Prod.fst → set fields item = fields ++ [item])
    (items fields : List (κ × β)) (h : ((fields ++ items).map Prod.fst).Nodup) :
    items.foldl set fields = fields ++ items := by
  induction items generalizing fields with
  | nil => exact (List.append_nil fields).symm
  | cons item items ih =>
    have hitem : item.1 ∉ fields.map Prod.fst := by
      rw [List.map_append, List.map_cons] at h
      exact fun hmem => (List.nodup_append.mp h).2.2 _ hmem _ List.mem_cons_self rfl
    have hsplit : fields ++ item :: items = (fields ++ [item]) ++ items := by
      rw [List.append_assoc]
      rfl
    rw [List.foldl_cons, hset _ _ hitem, hsplit]
    exact ih _ (hsplit ▸ h)

/-- Items with different keys are those of the dict. -/
theorem dictOf_eq {items : Fields} (h : (items.map Prod.fst).Nodup) : dictOf items = items :=
  foldl_append (fun _ _ hitem => setItem_append hitem) items [] h

/-! ### Values -/

mutual

/-- A value that JSON can hold: its floats are read from their `repr`, its ints are short enough to
be converted, and its dicts have each key once. -/
def Value.Json (reader : Reader) : Value → Prop
  | .int n => (Nat.toDigits 10 n.natAbs).length ≤ intDigitsLimit
  | .float value text => scanNumber reader text.toList = some (.float value text, [])
  | .list items => JsonItems reader items
  | .dict fields => (fields.map Prod.fst).Nodup ∧ JsonFields reader fields
  | _ => True

def JsonItems (reader : Reader) : List Value → Prop
  | [] => True
  | value :: items => value.Json reader ∧ JsonItems reader items

def JsonFields (reader : Reader) : Fields → Prop
  | [] => True
  | (_, value) :: fields => value.Json reader ∧ JsonFields reader fields

end

/-- No text of a value starts with white space or a closing bracket. -/
theorem head_write (h : value.Json reader) :
    ∃ ch text, value.write = ch :: text ∧ isJsonSpace ch = false ∧ ch ≠ ']' ∧ ch ≠ '\x7d' := by
  have hnumber : ∀ text, (scanNumber reader text).isSome →
      ∃ ch rest, text = ch :: rest ∧ isJsonSpace ch = false ∧ ch ≠ ']' ∧ ch ≠ '\x7d' := by
    intro text hsome
    obtain ⟨read, hread⟩ := Option.isSome_iff_exists.mp hsome
    obtain ⟨ch, rest, rfl, hch⟩ := head_of_scanNumber hread
    refine ⟨ch, rest, rfl, ?_⟩
    rcases hch with rfl | hdigit
    · decide
    · refine ⟨?_, ?_, ?_⟩
      · cases hspace : isJsonSpace ch with
        | false => rfl
        | true =>
          simp only [isJsonSpace, Bool.or_eq_true, decide_eq_true_eq] at hspace
          rcases hspace with ((rfl | rfl) | rfl) | rfl <;> exact absurd hdigit (by decide)
      · rintro rfl
        exact absurd hdigit (by decide)
      · rintro rfl
        exact absurd hdigit (by decide)
  cases value with
  | none => exact ⟨'n', _, rfl, by decide⟩
  | bool b => cases b <;> exact ⟨_, _, rfl, by decide⟩
  | int n =>
    rw [Value.Json] at h
    exact hnumber _ (by rw [Value.write, scanNumber_int h]; rfl)
  | float value text =>
    rw [Value.Json] at h
    exact hnumber _ (by rw [Value.write, h]; rfl)
  | str s => exact ⟨'"', _, rfl, by decide⟩
  | list items => exact ⟨'[', _, rfl, by decide⟩
  | dict fields => exact ⟨'\x7b', _, rfl, by decide⟩

theorem skipSpace_cons (text : List Char) (h : isJsonSpace ch = false) :
    skipSpace (ch :: text) = ch :: text := by
  rw [skipSpace, List.dropWhile_cons, h]
  rfl

/-- A text of a value is not passed over. -/
theorem skipSpace_write (h : value.Json reader) (rest : List Char) :
    skipSpace (value.write ++ rest) = value.write ++ rest := by
  obtain ⟨ch, text, hwrite, hch, -⟩ := head_write h
  rw [hwrite, List.cons_append, skipSpace_cons _ hch]

/-- A number is scanned as one. -/
theorem scanOnce_number (fuel : Nat) (h : scanNumber reader text = some (value, after)) :
    scanOnce reader (fuel + 1) text = some (value, after) := by
  obtain ⟨ch, rest, rfl, hch⟩ := head_of_scanNumber h
  have hother : ∀ ch', ch = ch' → (ch' = '-' ∨ ch'.isDigit = true) := by
    rintro ch' rfl
    exact hch
  unfold scanOnce
  split
  · next heq => exact absurd (hother _ (List.cons.inj heq).1) (by decide)
  · next heq => exact absurd (hother _ (List.cons.inj heq).1) (by decide)
  · next heq => exact absurd (hother _ (List.cons.inj heq).1) (by decide)
  · next heq => exact absurd (hother _ (List.cons.inj heq).1) (by decide)
  · next heq => exact absurd (hother _ (List.cons.inj heq).1) (by decide)
  · next heq => exact absurd (hother _ (List.cons.inj heq).1) (by decide)
  · exact h

/-- No text is empty. -/
theorem length_write_pos (h : value.Json reader) : 0 < value.write.length := by
  obtain ⟨ch, text, hwrite, -⟩ := head_write h
  rw [hwrite, List.length_cons]
  exact Nat.succ_pos _

/-! What the loops over items and fields make of the value they read. -/

theorem scanItems_last {reader : Reader} {fuel : Nat} {text rest : List Char} {value : Value}
    (h : scanOnce reader fuel text = some (value, ']' :: rest)) :
    scanItems reader (fuel + 1) text = some ([value], rest) := by
  rw [scanItems, h]
  rfl

theorem scanItems_more (h : scanOnce reader fuel text = some (value, ',' :: rest)) :
    scanItems reader (fuel + 1) text =
      (scanItems reader fuel (skipSpace rest)).map fun read => (value :: read.1, read.2) := by
  rw [scanItems, h]
  rfl

theorem scanFields_last (h : scanOnce reader fuel (skipSpace text) = some (value, '\x7d' :: rest)) :
    scanFields reader (fuel + 1) (writeText key ++ ':' :: text) = some ([(key, value)], rest) := by
  have hcolon : skipSpace (':' :: text) = ':' :: text := skipSpace_cons _ (by decide)
  have hclose : skipSpace ('\x7d' :: rest) = '\x7d' :: rest := skipSpace_cons _ (by decide)
  rw [writeText_append, scanFields, scanString_write]
  simp only [hcolon, h, hclose, String.ofList_toList]

theorem scanFields_more (h : scanOnce reader fuel (skipSpace text) = some (value, ',' :: rest)) :
    scanFields reader (fuel + 1) (writeText key ++ ':' :: text) =
      (scanFields reader fuel (skipSpace rest)).map fun read =>
        ((key, value) :: read.1, read.2) := by
  have hcolon : skipSpace (':' :: text) = ':' :: text := skipSpace_cons _ (by decide)
  have hcomma : skipSpace (',' :: rest) = ',' :: rest := skipSpace_cons _ (by decide)
  rw [writeText_append, scanFields, scanString_write]
  simp only [hcolon, h, hcomma, String.ofList_toList]

mutual

/-- The text of a value is read as that value. -/
theorem scanOnce_write (reader : Reader) : ∀ (value : Value) (fuel : Nat) (rest : List Char),
    value.Json reader → Ends rest → 2 * value.write.length ≤ fuel + 1 →
      scanOnce reader (fuel + 1) (value.write ++ rest) = some (value, rest)
  | .none, _, _, _, _, _ => rfl
  | .bool true, _, _, _, _, _ => rfl
  | .bool false, _, _, _, _, _ => rfl
  | .int n, fuel, rest, h, hrest, _ => by
    rw [Value.Json] at h
    exact scanOnce_number fuel (scanNumber_append (scanNumber_int h) hrest)
  | .float value text, fuel, rest, h, hrest, _ => by
    rw [Value.Json] at h
    exact scanOnce_number fuel (scanNumber_append h hrest)
  | .str s, fuel, rest, _, _, _ => by
    rw [Value.write, writeText_append, scanOnce, scanString_write, Option.map_some,
      String.ofList_toList]
  | .list [], _, _, _, _, _ => rfl
  | .list (value :: items), fuel, rest, h, _, hfuel => by
    rw [Value.Json] at h
    have hitems := scanItems_write reader (value :: items) fuel rest (List.cons_ne_nil _ _) h
      (by
        rw [Value.write, List.length_cons, List.length_append, List.length_cons] at hfuel
        omega)
    obtain ⟨ch, text, hwrite, hspace, hclose, -⟩ := head_write h.1
    have htext : writeItems [] (value :: items) ++ ']' :: rest =
        ch :: (text ++ (writeItems [',', ' '] items ++ ']' :: rest)) := by
      rw [writeItems, List.nil_append, hwrite, List.append_assoc, List.cons_append]
    rw [Value.write, List.cons_append, List.append_assoc, List.singleton_append, scanOnce, htext,
      skipSpace_cons _ hspace, ← htext]
    split
    · next heq =>
      rw [htext] at heq
      exact absurd (List.cons.inj heq).1 hclose
    · rw [hitems]
      rfl
  | .dict [], _, _, _, _, _ => rfl
  | .dict (field :: fields), fuel, rest, h, _, hfuel => by
    rw [Value.Json] at h
    have hfields := scanFields_write reader (field :: fields) fuel rest (List.cons_ne_nil _ _) h.2
      (by
        rw [Value.write, List.length_cons, List.length_append, List.length_cons] at hfuel
        omega)
    have htext : ∃ text, writeFields [] (field :: fields) ++ '\x7d' :: rest = '"' :: text :=
      ⟨_, rfl⟩
    obtain ⟨text, htext⟩ := htext
    rw [Value.write, List.cons_append, List.append_assoc, List.singleton_append, scanOnce, htext,
      skipSpace_cons _ (by decide), ← htext]
    split
    · next heq =>
      rw [htext] at heq
      exact absurd (List.cons.inj heq).1 (by decide)
    · rw [hfields]
      rw [Option.map_some, dictOf_eq h.1]

theorem scanItems_write (reader : Reader) : ∀ (items : List Value) (fuel : Nat)
    (rest : List Char), items ≠ [] → JsonItems reader items →
      2 * (writeItems [] items).length + 1 ≤ fuel →
        scanItems reader fuel (writeItems [] items ++ ']' :: rest) = some (items, rest)
  | [], _, _, hne, _, _ => absurd rfl hne
  | [value], fuel, rest, _, h, hfuel => by
    have hpos := length_write_pos h.1
    have htext : writeItems [] [value] ++ ']' :: rest = value.write ++ ']' :: rest := by
      rw [writeItems, writeItems, List.nil_append, List.append_nil]
    rw [writeItems, writeItems, List.nil_append, List.append_nil] at hfuel
    obtain ⟨fuel, rfl⟩ := Nat.exists_eq_add_of_le (show 2 ≤ fuel by omega)
    have hvalue := scanOnce_write reader value fuel (']' :: rest) h.1
      (Or.inr ⟨rest, Or.inr (Or.inl rfl)⟩) (by omega)
    rw [htext, Nat.add_comm 2 fuel]
    exact scanItems_last hvalue
  | value :: item :: items, fuel, rest, _, h, hfuel => by
    have hpos := length_write_pos h.1
    have htext : writeItems [] (value :: item :: items) =
        value.write ++ ',' :: ' ' :: writeItems [] (item :: items) := rfl
    rw [htext, List.length_append, List.length_cons, List.length_cons] at hfuel
    obtain ⟨fuel, rfl⟩ := Nat.exists_eq_add_of_le (show 2 ≤ fuel by omega)
    have hvalue := scanOnce_write reader value fuel
      (',' :: ' ' :: (writeItems [] (item :: items) ++ ']' :: rest)) h.1
      (Or.inr ⟨_, Or.inl rfl⟩) (by omega)
    have hitems := scanItems_write reader (item :: items) (fuel + 1) rest (List.cons_ne_nil _ _) h.2
      (by omega)
    have hskip : skipSpace (' ' :: (writeItems [] (item :: items) ++ ']' :: rest)) =
        writeItems [] (item :: items) ++ ']' :: rest := by
      have hitem := skipSpace_write h.2.1 (writeItems [',', ' '] items ++ ']' :: rest)
      rw [← List.append_assoc] at hitem
      exact hitem
    rw [htext, Nat.add_comm 2 fuel, List.append_assoc, List.cons_append, List.cons_append,
      scanItems_more hvalue, hskip, hitems]
    rfl

theorem scanFields_write (reader : Reader) : ∀ (fields : Fields)
    (fuel : Nat) (rest : List Char), fields ≠ [] → JsonFields reader fields →
      2 * (writeFields [] fields).length + 1 ≤ fuel →
        scanFields reader fuel (writeFields [] fields ++ '\x7d' :: rest) = some (fields, rest)
  | [], _, _, hne, _, _ => absurd rfl hne
  | [(key, value)], fuel, rest, _, h, hfuel => by
    have hpos := length_write_pos h.1
    have htext : writeFields [] [(key, value)] = writeText key ++ ':' :: ' ' :: value.write := by
      rw [writeFields, writeFields, List.nil_append, List.append_nil]
    rw [htext, List.length_append, List.length_cons, List.length_cons] at hfuel
    obtain ⟨fuel, rfl⟩ := Nat.exists_eq_add_of_le (show 2 ≤ fuel by omega)
    have hskip : skipSpace (' ' :: (value.write ++ '\x7d' :: rest)) =
        value.write ++ '\x7d' :: rest := skipSpace_write h.1 _
    have hvalue := scanOnce_write reader value fuel ('\x7d' :: rest) h.1
      (Or.inr ⟨rest, Or.inr (Or.inr rfl)⟩) (by omega)
    rw [← hskip] at hvalue
    rw [htext, Nat.add_comm 2 fuel, List.append_assoc, List.cons_append, List.cons_append]
    exact scanFields_last hvalue
  | (key, value) :: field :: fields, fuel, rest, _, h, hfuel => by
    have hpos := length_write_pos h.1
    have htext : writeFields [] ((key, value) :: field :: fields) =
        writeText key ++ ':' :: ' ' :: (value.write ++
          ',' :: ' ' :: writeFields [] (field :: fields)) := rfl
    rw [htext] at hfuel
    simp only [List.length_append, List.length_cons] at hfuel
    obtain ⟨fuel, rfl⟩ := Nat.exists_eq_add_of_le (show 2 ≤ fuel by omega)
    have hvalue := scanOnce_write reader value fuel
      (',' :: ' ' :: (writeFields [] (field :: fields) ++ '\x7d' :: rest)) h.1
      (Or.inr ⟨_, Or.inl rfl⟩) (by omega)
    have hfields := scanFields_write reader (field :: fields) (fuel + 1) rest
      (List.cons_ne_nil _ _) h.2 (by omega)
    have hskip : skipSpace (' ' :: (value.write ++
        ',' :: ' ' :: (writeFields [] (field :: fields) ++ '\x7d' :: rest))) =
        value.write ++ ',' :: ' ' :: (writeFields [] (field :: fields) ++ '\x7d' :: rest) :=
      skipSpace_write h.1 _
    have hskip' : skipSpace (' ' :: (writeFields [] (field :: fields) ++ '\x7d' :: rest)) =
        writeFields [] (field :: fields) ++ '\x7d' :: rest := rfl
    rw [← hskip] at hvalue
    rw [htext, Nat.add_comm 2 fuel, List.append_assoc, List.cons_append, List.cons_append,
      List.append_assoc, List.cons_append, List.cons_append, scanFields_more hvalue, hskip',
      hfields]
    rfl

end

/-! ### Bytes -/

theorem utf8_eq (text : List Char) : utf8 text = text.flatMap String.utf8EncodeChar := by
  rw [utf8, String.toUTF8_eq_toByteArray, String.toByteArray_ofList, List.utf8Encode,
    List.toList_data_toByteArray]

/-- Bytes that start with two ASCII characters are taken as UTF-8. -/
theorem detectEncoding_ascii {a b : UInt8} (bytes : List UInt8) (ha : 0 < a.toNat ∧ a.toNat < 128)
    (hb : b ≠ 0) : detectEncoding (a :: b :: bytes) = .utf8 := by
  have hzero : a ≠ 0 := by
    rintro rfl
    exact absurd ha.1 (by decide)
  have hhigh : ∀ x : UInt8, 128 ≤ x.toNat → (x == a) = false := by
    intro x hx
    rw [beq_eq_false_iff_ne]
    rintro rfl
    omega
  have hlow : ((0 : UInt8) == a) = false := beq_eq_false_iff_ne.mpr hzero.symm
  rcases bytes with _ | ⟨d, _ | ⟨e, bytes⟩⟩ <;>
    simp [detectEncoding, List.isPrefixOf, hlow, hhigh, hzero, hb]

/-- The bytes of a text are read as that text. -/
theorem fromUTF8_utf8 (text : List Char) :
    (String.fromUTF8? ⟨(utf8 text).toArray⟩).map String.toList = some text := by
  have hbytes : (⟨(utf8 text).toArray⟩ : ByteArray) = (String.ofList text).toByteArray := rfl
  rw [hbytes, String.fromUTF8?, dif_pos (String.ofList text).isValidUTF8]
  exact congrArg some (String.toList_ofList)

/-- **Round trip**: an object that JSON can hold is read back from the bytes of its text. -/
theorem loads_write {field : String × Value} {fields : Fields}
    (h : (Value.dict (field :: fields)).Json reader) :
    loads reader (utf8 (Value.dict (field :: fields)).write) = some (.dict (field :: fields)) := by
  have hbytes : ∃ bytes, utf8 (Value.dict (field :: fields)).write = 0x7b :: 0x22 :: bytes := by
    rw [utf8_eq]
    exact ⟨_, rfl⟩
  obtain ⟨bytes, hbytes⟩ := hbytes
  have hdecode : decodeBytes reader (utf8 (Value.dict (field :: fields)).write) =
      some (Value.dict (field :: fields)).write := by
    rw [decodeBytes, hbytes, detectEncoding_ascii bytes (by decide) (by decide), ← hbytes]
    exact fromUTF8_utf8 _
  have hscan := scanOnce_write reader _ (2 * (Value.dict (field :: fields)).write.length + 1) [] h
    (Or.inl rfl) (by omega)
  have hskip := skipSpace_write h []
  rw [List.append_nil] at hscan hskip
  rw [loads, hdecode]
  dsimp only
  rw [hskip, hscan]
  rfl

end Lnpl.Lib.Py
