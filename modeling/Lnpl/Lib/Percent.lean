import Lnpl.Lib.JsonText

/-!
# Percent-encoding

`urllib.parse.quote(text, safe="")` of a str, which is a list of code points, and the reading of
what it writes.  A quoted text is read back (`unquote_of_quote`), has nothing but unreserved
characters and `%` in it (`safe_of_quote`), and is made of dots iff it was so before
(`quote_dots`, `eq_of_quote_dots`).
-/

namespace Lnpl.Lib.Percent

open JsonText (Text codes encodeUtf8)

/-- Every code point is a Unicode scalar value: the text has no lone surrogate. -/
def Scalar (text : Text) : Prop := ∀ code ∈ text, code.isValidChar

instance (text : Text) : Decidable (Scalar text) :=
  inferInstanceAs (Decidable (∀ code ∈ text, _))

/-- `text.encode("utf-8")`, `none` for the `UnicodeEncodeError`. -/
def encode (text : Text) : Option (List UInt8) :=
  if Scalar text then some (encodeUtf8 text) else none

/-- `bytes.decode("utf-8")`, `none` for the `UnicodeDecodeError`. -/
def decode (bytes : List UInt8) : Option Text :=
  (String.fromUTF8? ⟨bytes.toArray⟩).map codes

/-- The bytes of letters, digits and `_.-~` (`_ALWAYS_SAFE`). -/
def alwaysSafe (code : ℕ) : Bool :=
  (65 ≤ code && code ≤ 90) || (97 ≤ code && code ≤ 122) || (48 ≤ code && code ≤ 57) ||
    code == 95 || code == 46 || code == 45 || code == 126

/-- A digit of `"%02X"`. -/
def hexDigit (n : ℕ) : ℕ := if n < 10 then 48 + n else 55 + n

/-- A byte as it is, if it is safe, or as `%XX`. -/
def quoteByte (byte : UInt8) : Text :=
  if alwaysSafe byte.toNat then [byte.toNat]
  else ['%'.toNat, hexDigit (byte.toNat / 16), hexDigit (byte.toNat % 16)]

/-- `urllib.parse.quote(text, safe="")`. -/
def quote (text : Text) : Option Text := (encode text).map fun bytes => bytes.flatMap quoteByte

/-- The value of a hexadecimal digit. -/
def hexValue (code : ℕ) : Option ℕ :=
  if 48 ≤ code ∧ code ≤ 57 then some (code - 48)
  else if 65 ≤ code ∧ code ≤ 70 then some (code - 55)
  else if 97 ≤ code ∧ code ≤ 102 then some (code - 87)
  else none

/-- `urllib.parse.unquote_to_bytes`. -/
def unquoteBytes : List UInt8 → List UInt8
  | byte :: a :: b :: rest =>
    if byte = 37 then
      match hexValue a.toNat, hexValue b.toNat with
      | some x, some y => UInt8.ofNat (16 * x + y) :: unquoteBytes rest
      | _, _ => byte :: unquoteBytes (a :: b :: rest)
    else byte :: unquoteBytes (a :: b :: rest)
  | bytes => bytes

/-- The text that percent-encodes to this one. -/
def unquote (text : Text) : Option Text :=
  (encode text).bind fun bytes => decode (unquoteBytes bytes)

/-! ### Bytes and texts -/

theorem scalar_codes (s : String) : Scalar (codes s) := by
  intro code hcode
  obtain ⟨ch, -, rfl⟩ := List.mem_map.mp hcode
  exact ch.valid

variable {code n : ℕ}

theorem toNat_ofNat (h : code.isValidChar) : (Char.ofNat code).toNat = code := by
  rw [Char.ofNat, dif_pos h]
  rfl

theorem encodeUtf8_eq (text : Text) : encodeUtf8 text = Py.utf8 (text.map Char.ofNat) := by
  rw [Py.utf8_eq, encodeUtf8, List.flatMap_map]

theorem decode_encodeUtf8 {text : Text} (h : Scalar text) :
    decode (encodeUtf8 text) = some text := by
  have hchars : (text.map Char.ofNat).map Char.toNat = text := by
    rw [List.map_map]
    calc text.map (Char.toNat ∘ Char.ofNat)
      _ = text.map id := List.map_congr_left fun code hcode => toNat_ofNat (h code hcode)
      _ = text := List.map_id text
  have hread := congrArg (Option.map (List.map Char.toNat))
    (Py.fromUTF8_utf8 (text.map Char.ofNat))
  rw [Option.map_map, Option.map_some, hchars] at hread
  rw [encodeUtf8_eq]
  exact hread

/-! ### One byte -/

theorem hexDigit_safe (h : n < 16) : alwaysSafe (hexDigit n) = true := by
  have hall : ∀ n : Fin 16, alwaysSafe (hexDigit n.val) = true := by decide
  exact hall ⟨n, h⟩

theorem hexValue_hexDigit (h : n < 16) : hexValue (hexDigit n) = some n := by
  have hall : ∀ n : Fin 16, hexValue (hexDigit n.val) = some n.val := by decide
  exact hall ⟨n, h⟩

theorem lt_of_alwaysSafe (h : alwaysSafe code = true) : code < 128 := by
  simp only [alwaysSafe, Bool.or_eq_true, Bool.and_eq_true, decide_eq_true_eq, beq_iff_eq] at h
  omega

/-- What a byte is quoted as is unreserved, or the `%` in front of its digits. -/
theorem quoteByte_safe (byte : UInt8) :
    ∀ code ∈ quoteByte byte, alwaysSafe code = true ∨ code = '%'.toNat := by
  intro code hcode
  have hlt := byte.toNat_lt
  rw [quoteByte] at hcode
  split_ifs at hcode with hsafe
  · rw [List.mem_singleton.mp hcode]
    exact .inl hsafe
  · simp only [List.mem_cons, List.not_mem_nil, or_false] at hcode
    rcases hcode with rfl | rfl | rfl
    · exact .inr rfl
    · exact .inl (hexDigit_safe (by omega))
    · exact .inl (hexDigit_safe (by omega))

theorem unquoteBytes_cons {byte : UInt8} (h : byte ≠ 37) (rest : List UInt8) :
    unquoteBytes (byte :: rest) = byte :: unquoteBytes rest := by
  match rest with
  | [] => rfl
  | [_] => rfl
  | a :: b :: rest => rw [unquoteBytes, if_neg h]

/-- A byte is read back from what it is quoted as. -/
theorem unquoteBytes_quoteByte (byte : UInt8) (rest : List UInt8) :
    unquoteBytes ((quoteByte byte).map UInt8.ofNat ++ rest) = byte :: unquoteBytes rest := by
  have hlt : byte.toNat < 256 := byte.toNat_lt
  rw [quoteByte]
  split_ifs with hsafe
  · have hne : byte ≠ 37 := by
      rintro rfl
      exact absurd hsafe (by decide)
    rw [List.map_singleton, UInt8.ofNat_toNat, List.singleton_append, unquoteBytes_cons hne]
  · have hhigh := hexDigit_safe (n := byte.toNat / 16) (by omega)
    have hlow := hexDigit_safe (n := byte.toNat % 16) (by omega)
    have hread (n : ℕ) (h : alwaysSafe n = true) : (UInt8.ofNat n).toNat = n :=
      UInt8.toNat_ofNat_of_lt' (Nat.lt_trans (lt_of_alwaysSafe h) (by decide))
    have hbyte : 16 * (byte.toNat / 16) + byte.toNat % 16 = byte.toNat := by omega
    simp only [List.map_cons, List.map_nil, List.cons_append, List.nil_append]
    rw [unquoteBytes, if_pos (by decide), hread _ hhigh, hread _ hlow,
      hexValue_hexDigit (by omega), hexValue_hexDigit (by omega)]
    dsimp only
    rw [hbyte, UInt8.ofNat_toNat]

/-! ### Texts -/

variable {text piece : Text}

theorem exists_of_quote (h : quote text = some piece) :
    Scalar text ∧ piece = (encodeUtf8 text).flatMap quoteByte := by
  obtain ⟨bytes, hbytes, hpiece⟩ := Option.map_eq_some_iff.mp h
  rw [encode, Option.ite_none_right_eq_some] at hbytes
  obtain ⟨hscalar, hbytes⟩ := hbytes
  rw [← hpiece, ← Option.some.inj hbytes]
  exact ⟨hscalar, rfl⟩

/-- A text can be quoted iff it has no lone surrogate. -/
theorem quote_isSome_iff : (quote text).isSome ↔ Scalar text := by
  rw [quote, Option.isSome_map, encode]
  split_ifs with h
  · exact iff_of_true rfl h
  · exact iff_of_false nofun h

/-- **Unreserved characters and `%`** are all that a quoted text has. -/
theorem safe_of_quote (h : quote text = some piece) :
    ∀ code ∈ piece, alwaysSafe code = true ∨ code = '%'.toNat := by
  intro code hcode
  rw [(exists_of_quote h).2] at hcode
  obtain ⟨byte, -, hbyte⟩ := List.mem_flatMap.mp hcode
  exact quoteByte_safe byte code hbyte

theorem ascii_of_quote (h : quote text = some piece) : JsonText.Ascii piece := by
  intro code hcode
  rcases safe_of_quote h code hcode with hsafe | rfl
  · exact lt_of_alwaysSafe hsafe
  · decide

theorem unquoteBytes_flatMap (bytes : List UInt8) :
    unquoteBytes ((bytes.flatMap quoteByte).map UInt8.ofNat) = bytes := by
  induction bytes with
  | nil => rfl
  | cons byte bytes ih =>
    rw [List.flatMap_cons, List.map_append, unquoteBytes_quoteByte, ih]

/-- **Round trip**: a quoted text is read back. -/
theorem unquote_of_quote (h : quote text = some piece) : unquote piece = some text := by
  have hascii := ascii_of_quote h
  obtain ⟨hscalar, hpiece⟩ := exists_of_quote h
  have hpieceScalar : Scalar piece := by
    intro code hcode
    have hlt := hascii code hcode
    exact .inl (by omega)
  rw [unquote, encode, if_pos hpieceScalar, Option.bind_some, JsonText.encodeUtf8_ascii hascii,
    hpiece, unquoteBytes_flatMap]
  exact decode_encodeUtf8 hscalar

/-! ### Dots -/

/-- Dots are quoted as they are. -/
theorem quote_dots (h : ∀ code ∈ text, code = '.'.toNat) : quote text = some text := by
  have hascii : JsonText.Ascii text := by
    intro code hcode
    rw [h code hcode]
    decide
  have hscalar : Scalar text := by
    intro code hcode
    rw [h code hcode]
    decide
  rw [quote, encode, if_pos hscalar, Option.map_some, JsonText.encodeUtf8_ascii hascii]
  congr 1
  induction text with
  | nil => rfl
  | cons code text ih =>
    have hcode := h code List.mem_cons_self
    have htail := List.forall_mem_cons.mp h
    rw [List.map_cons, List.flatMap_cons, ih htail.2 (List.forall_mem_cons.mp hascii).2
      (List.forall_mem_cons.mp hscalar).2, hcode]
    rfl

/-- Nothing else is quoted as dots. -/
theorem eq_of_quote_dots (h : quote text = some piece) (hdots : ∀ code ∈ piece, code = '.'.toNat) :
    text = piece := by
  have hread := unquote_of_quote h
  rw [unquote_of_quote (quote_dots hdots)] at hread
  exact (Option.some.inj hread).symm

end Lnpl.Lib.Percent
