import Lnpl.Lib.Nesting
import Lnpl.Lib.Percent

/-!
# JSON texts in one line

`json.dumps(value, ensure_ascii=False)` writes the code points of a str as they are, a lone
surrogate among them, so that whether its text can be encoded is known only when it is written to
a stream.  The text has no line break, and it is read back as the value (`loadsText_writeRaw`).  A
float is written as Python spells it, which is a parameter.
-/

namespace Lnpl.Lib.JsonText

open Lnpl.Lib (map_eq_ok)
open Lnpl.Lib.Percent (Scalar)
open Lnpl.Lib.Py (intDigitsLimit)

/-! ### Writing -/

/-- What is written for a code point without `ensure_ascii`. -/
def escapeRaw (code : Nat) : Text :=
  if code = '"'.toNat then ['\\'.toNat, '"'.toNat]
  else if code = '\\'.toNat then ['\\'.toNat, '\\'.toNat]
  else if code = 10 then ['\\'.toNat, 'n'.toNat]
  else if code = 13 then ['\\'.toNat, 'r'.toNat]
  else if code = 9 then ['\\'.toNat, 't'.toNat]
  else if code = 12 then ['\\'.toNat, 'f'.toNat]
  else if code = 8 then ['\\'.toNat, 'b'.toNat]
  else if code < 32 then unitEscape code
  else [code]

/-- A text in quotes. -/
def writeRawText (text : Text) : Text := '"'.toNat :: (text.flatMap escapeRaw ++ ['"'.toNat])

mutual

/-- The text of a value whose floats are spelled. -/
def Json.writeRaw : Json → Text
  | .null => codes "null"
  | .bool b => codes (if b then "true" else "false")
  | .int n => codes (toString n)
  | .float literal => literal
  | .str text => writeRawText text
  | .list items => '['.toNat :: (writeRawItems [] items ++ [']'.toNat])
  | .dict fields => '\x7b'.toNat :: (writeRawFields [] fields ++ ['\x7d'.toNat])

/-- The items, `sep` before the first. -/
def writeRawItems (sep : Text) : List Json → Text
  | [] => []
  | value :: items => sep ++ (value.writeRaw ++ writeRawItems (codes ", ") items)

def writeRawFields (sep : Text) : Fields → Text
  | [] => []
  | (key, value) :: fields =>
    sep ++ (writeRawText key ++ codes ": " ++ value.writeRaw ++ writeRawFields (codes ", ") fields)

end

mutual

/-- The value with each float as `spell` writes the literal that it was read from. -/
def Json.spelled (spell : Text → Text) : Json → Json
  | .float literal => .float (spell literal)
  | .list items => .list (spelledItems spell items)
  | .dict fields => .dict (spelledFields spell fields)
  | value => value

def spelledItems (spell : Text → Text) : List Json → List Json
  | [] => []
  | value :: items => value.spelled spell :: spelledItems spell items

def spelledFields (spell : Text → Text) : Fields → Fields
  | [] => []
  | (key, value) :: fields => (key, value.spelled spell) :: spelledFields spell fields

end

/-- `json.dumps(value, ensure_ascii=False)`, where there is room for so many containers inside each
other. -/
def dumpsRaw (spell : Text → Text) (room : Nat) (value : Json) : Except Fault Text :=
  if room < value.nesting then .error .recursionError else .ok (value.spelled spell).writeRaw

/-! ### Floats -/

/-- The text of a number that is a float. -/
def IsFloat (text : Text) : Prop := scanNumber text = .ok (.float text, [])

/-- The digits of a literal as a number, and the power of ten that scales them. -/
def decimal (literal : Text) : Nat × Int :=
  let sign := signPart literal
  let int := (intPart sign.2).getD ([], sign.2)
  let frac := fracPart int.2
  let exp := (expPart frac.2).1.tail
  let digits := frac.1.tail
  let power : Int := if exp.head? = some '-'.toNat then -numberOf exp.tail
    else if exp.head? = some '+'.toNat then numberOf exp.tail else numberOf exp
  (numberOf (int.1 ++ digits), power - digits.length)

/-- `math.isfinite(float(literal))`: what lies half a unit above the largest float is infinite. -/
def isFinite (literal : Text) : Bool :=
  if literal ∈ [codes "NaN", codes "Infinity", codes "-Infinity"] then false
  else if 0 ≤ (decimal literal).2 then
    (decimal literal).1 * 10 ^ (decimal literal).2.toNat < 2 ^ 1024 - 2 ^ 970
  else (decimal literal).1 < (2 ^ 1024 - 2 ^ 970) * 10 ^ (-(decimal literal).2).toNat

/-- `float(literal) == 0.0`: what lies at most half a unit above zero is zero. -/
def isZero (literal : Text) : Bool :=
  if literal ∈ [codes "NaN", codes "Infinity", codes "-Infinity"] then false
  else if 0 ≤ (decimal literal).2 then (decimal literal).1 = 0
  else (decimal literal).1 * 2 ^ 1075 ≤ 10 ^ (-(decimal literal).2).toNat

/-- `bool(value)`. -/
def Json.truthy : Json → Bool
  | .null => false
  | .bool b => b
  | .int n => n ≠ 0
  | .float literal => !isZero literal
  | .str text => text ≠ []
  | .list items => !items.isEmpty
  | .dict fields => !fields.isEmpty

/-! ### What a value holds -/

mutual

/-- Each float in the value has the property. -/
def Json.Floats (p : Text → Prop) : Json → Prop
  | .float literal => p literal
  | .list items => FloatsItems p items
  | .dict fields => FloatsFields p fields
  | _ => True

def FloatsItems (p : Text → Prop) : List Json → Prop
  | [] => True
  | value :: items => value.Floats p ∧ FloatsItems p items

def FloatsFields (p : Text → Prop) : Fields → Prop
  | [] => True
  | (_, value) :: fields => value.Floats p ∧ FloatsFields p fields

end

mutual

/-- Each str in the value has the property, the keys among them. -/
def Json.Strs (p : Text → Prop) : Json → Prop
  | .str text => p text
  | .list items => StrsItems p items
  | .dict fields => StrsFields p fields
  | _ => True

def StrsItems (p : Text → Prop) : List Json → Prop
  | [] => True
  | value :: items => value.Strs p ∧ StrsItems p items

def StrsFields (p : Text → Prop) : Fields → Prop
  | [] => True
  | (key, value) :: fields => p key ∧ value.Strs p ∧ StrsFields p fields

end

mutual

/-- A value that a text can be read as: its ints are short enough to be converted, and its dicts have
each key once. -/
def Json.Loaded : Json → Prop
  | .int n => (Nat.toDigits 10 n.natAbs).length ≤ intDigitsLimit
  | .list items => LoadedItems items
  | .dict fields => (fields.map Prod.fst).Nodup ∧ LoadedFields fields
  | _ => True

def LoadedItems : List Json → Prop
  | [] => True
  | value :: items => value.Loaded ∧ LoadedItems items

def LoadedFields : Fields → Prop
  | [] => True
  | (_, value) :: fields => value.Loaded ∧ LoadedFields fields

end

/-- The text that a float is read from: a number, or one of the three constants. -/
def IsSpelled (text : Text) : Prop :=
  IsFloat text ∨ text ∈ [codes "NaN", codes "Infinity", codes "-Infinity"]

/-! ### Spelling -/

section

variable (spell : Text → Text)

mutual

theorem floats_spelled (p : Text → Prop) : ∀ value : Json,
    (value.spelled spell).Floats p ↔ value.Floats fun literal => p (spell literal)
  | .list items => floats_spelledItems p items
  | .dict fields => floats_spelledFields p fields
  | .null | .bool _ | .int _ | .float _ | .str _ => Iff.rfl

theorem floats_spelledItems (p : Text → Prop) : ∀ items : List Json,
    FloatsItems p (spelledItems spell items) ↔
      FloatsItems (fun literal => p (spell literal)) items
  | [] => Iff.rfl
  | value :: items => and_congr (floats_spelled p value) (floats_spelledItems p items)

theorem floats_spelledFields (p : Text → Prop) : ∀ fields : Fields,
    FloatsFields p (spelledFields spell fields) ↔
      FloatsFields (fun literal => p (spell literal)) fields
  | [] => Iff.rfl
  | (_, value) :: fields => and_congr (floats_spelled p value) (floats_spelledFields p fields)

end

mutual

theorem strs_spelled (p : Text → Prop) : ∀ value : Json,
    (value.spelled spell).Strs p ↔ value.Strs p
  | .list items => strs_spelledItems p items
  | .dict fields => strs_spelledFields p fields
  | .null | .bool _ | .int _ | .float _ | .str _ => Iff.rfl

theorem strs_spelledItems (p : Text → Prop) : ∀ items : List Json,
    StrsItems p (spelledItems spell items) ↔ StrsItems p items
  | [] => Iff.rfl
  | value :: items => and_congr (strs_spelled p value) (strs_spelledItems p items)

theorem strs_spelledFields (p : Text → Prop) : ∀ fields : Fields,
    StrsFields p (spelledFields spell fields) ↔ StrsFields p fields
  | [] => Iff.rfl
  | (_, value) :: fields =>
    and_congr_right fun _ => and_congr (strs_spelled p value) (strs_spelledFields p fields)

end

theorem keys_spelledFields (fields : Fields) :
    (spelledFields spell fields).map Prod.fst = fields.map Prod.fst := by
  induction fields with
  | nil => rfl
  | cons entry fields ih => rw [spelledFields, List.map_cons, List.map_cons, ih]

mutual

theorem loaded_spelled : ∀ value : Json, (value.spelled spell).Loaded ↔ value.Loaded
  | .list items => loaded_spelledItems items
  | .dict fields => by
    rw [Json.spelled, Json.Loaded, Json.Loaded, keys_spelledFields, loaded_spelledFields fields]
  | .null | .bool _ | .int _ | .float _ | .str _ => Iff.rfl

theorem loaded_spelledItems : ∀ items : List Json,
    LoadedItems (spelledItems spell items) ↔ LoadedItems items
  | [] => Iff.rfl
  | value :: items => and_congr (loaded_spelled value) (loaded_spelledItems items)

theorem loaded_spelledFields : ∀ fields : Fields,
    LoadedFields (spelledFields spell fields) ↔ LoadedFields fields
  | [] => Iff.rfl
  | (_, value) :: fields => and_congr (loaded_spelled value) (loaded_spelledFields fields)

end

variable {q : Text → Prop}

mutual

/-- A property of the floats follows from another. -/
theorem Json.Floats.imp {p : Text → Prop} (himp : ∀ literal, p literal → q literal) :
    ∀ value : Json, value.Floats p → value.Floats q
  | .float literal, h => himp literal h
  | .list items, h => FloatsItems.imp himp items h
  | .dict fields, h => FloatsFields.imp himp fields h
  | .null, _ | .bool _, _ | .int _, _ | .str _, _ => trivial

theorem FloatsItems.imp {p : Text → Prop} (himp : ∀ literal, p literal → q literal) :
    ∀ items : List Json, FloatsItems p items → FloatsItems q items
  | [], _ => trivial
  | value :: items, h => ⟨Json.Floats.imp himp value h.1, FloatsItems.imp himp items h.2⟩

theorem FloatsFields.imp {p : Text → Prop} (himp : ∀ literal, p literal → q literal) :
    ∀ fields : Fields, FloatsFields p fields → FloatsFields q fields
  | [], _ => trivial
  | (_, value) :: fields, h => ⟨Json.Floats.imp himp value h.1, FloatsFields.imp himp fields h.2⟩

end

mutual

theorem Json.Floats.of_forall {p : Text → Prop} (h : ∀ literal, p literal) :
    ∀ value : Json, value.Floats p
  | .float literal => h literal
  | .list items => FloatsItems.of_forall h items
  | .dict fields => FloatsFields.of_forall h fields
  | .null | .bool _ | .int _ | .str _ => trivial

theorem FloatsItems.of_forall {p : Text → Prop} (h : ∀ literal, p literal) :
    ∀ items : List Json, FloatsItems p items
  | [] => trivial
  | value :: items => ⟨Json.Floats.of_forall h value, FloatsItems.of_forall h items⟩

theorem FloatsFields.of_forall {p : Text → Prop} (h : ∀ literal, p literal) :
    ∀ fields : Fields, FloatsFields p fields
  | [] => trivial
  | (_, value) :: fields => ⟨Json.Floats.of_forall h value, FloatsFields.of_forall h fields⟩

end

mutual

theorem Json.Strs.of_forall {p : Text → Prop} (h : ∀ text, p text) : ∀ value : Json, value.Strs p
  | .str text => h text
  | .list items => StrsItems.of_forall h items
  | .dict fields => StrsFields.of_forall h fields
  | .null | .bool _ | .int _ | .float _ => trivial

theorem StrsItems.of_forall {p : Text → Prop} (h : ∀ text, p text) :
    ∀ items : List Json, StrsItems p items
  | [] => trivial
  | value :: items => ⟨Json.Strs.of_forall h value, StrsItems.of_forall h items⟩

theorem StrsFields.of_forall {p : Text → Prop} (h : ∀ text, p text) :
    ∀ fields : Fields, StrsFields p fields
  | [] => trivial
  | (key, value) :: fields => ⟨h key, Json.Strs.of_forall h value, StrsFields.of_forall h fields⟩

end

end

/-! ### Strs -/

/-- A code point is read back from what is written for it, a surrogate too. -/
theorem scanString_escapeRaw (code : Nat) (rest : Text) :
    scanString none (escapeRaw code ++ rest) = (scanString none rest).map (before [code]) := by
  show scanString none (shortEscape code _ ++ rest) = _
  refine scanString_shortEscape fun hquote hslash => ?_
  by_cases hcontrol : code < 32
  · have hjoin : joinUnit none code = ([code], none) := if_neg (by omega)
    rw [if_pos hcontrol, scanString_unitEscape (by omega), hjoin]
  · rw [if_neg hcontrol, List.cons_append, List.nil_append, scanString.eq_def]
    dsimp only
    rw [if_neg hquote, if_neg hslash, if_neg hcontrol]
    rfl

/-- A str is read back from its text. -/
theorem scanString_writeRaw (text rest : Text) :
    scanString none (text.flatMap escapeRaw ++ '"'.toNat :: rest) = .ok (text, rest) := by
  induction text with
  | nil =>
    rw [List.flatMap_nil, List.nil_append, scanString.eq_def]
    exact if_pos rfl
  | cons code text ih =>
    rw [List.flatMap_cons, List.append_assoc, scanString_escapeRaw, ih]
    rfl

theorem writeRawText_append (text rest : Text) : writeRawText text ++ rest =
    '"'.toNat :: (text.flatMap escapeRaw ++ '"'.toNat :: rest) := by
  rw [writeRawText, List.cons_append, List.append_assoc, List.singleton_append]

/-! ### Numbers -/

variable {text rest : Text} {value : Json} {code fuel : Nat} {items : List Json} {scan : Scan}
  {fields : Fields}

variable {digits after : Text} {entry : Text × Json}

theorem intPart_append (h : intPart text = some (digits, after)) (hrest : Stops rest) :
    intPart (text ++ rest) = some (digits, after ++ rest) := by
  cases text with
  | nil => cases h
  | cons code text =>
    rw [List.cons_append]
    rw [intPart] at h ⊢
    by_cases hzero : code = '0'.toNat
    · rw [if_pos hzero] at h ⊢
      obtain ⟨rfl, rfl⟩ := Prod.mk.inj (Option.some.inj h)
      rfl
    · rw [if_neg hzero] at h ⊢
      by_cases hdigit : isDigit code = true
      · have hspan := hrest.span (code :: text)
        rw [if_pos hdigit] at h ⊢
        obtain ⟨rfl, rfl⟩ := Prod.mk.inj (Option.some.inj h)
        rw [← List.cons_append, hspan.1, hspan.2]
      · rw [if_neg hdigit] at h
        cases h

theorem digitsBehind_append (mark text after : Text) (hrest : Stops rest) :
    digitsBehind mark (text ++ rest) (after ++ rest) =
      ((digitsBehind mark text after).1, (digitsBehind mark text after).2 ++ rest) := by
  have hspan := hrest.span after
  unfold digitsBehind
  rw [hspan.1, hspan.2]
  split <;> rfl

theorem fracPart_append (text : Text) (hrest : Stops rest) :
    fracPart (text ++ rest) = ((fracPart text).1, (fracPart text).2 ++ rest) := by
  cases text with
  | nil => exact hrest.parts.1
  | cons code text =>
    rw [List.cons_append, fracPart, fracPart]
    split
    · exact digitsBehind_append _ (code :: text) _ hrest
    · rfl

theorem expPart_append (text : Text) (hrest : Stops rest) :
    expPart (text ++ rest) = ((expPart text).1, (expPart text).2 ++ rest) := by
  cases text with
  | nil => exact hrest.parts.2
  | cons code text =>
    rw [List.cons_append]
    unfold expPart
    dsimp only
    by_cases he : code = 'e'.toNat ∨ code = 'E'.toNat
    · rw [if_pos he, if_pos he]
      cases text with
      | nil =>
        cases rest with
        | nil => rfl
        | cons stop rest =>
          have hnone : ∀ mark text, digitsBehind mark text (stop :: rest) = ([], text) := by
            intro mark text
            rcases hrest stop rfl with rfl | rfl | rfl <;> rfl
          have hsign : ¬(stop = '+'.toNat ∨ stop = '-'.toNat) := by
            rcases hrest stop rfl with rfl | rfl | rfl <;> decide
          rw [List.nil_append]
          dsimp only
          rw [if_neg hsign, hnone]
          rfl
      | cons sign digits =>
        rw [List.cons_append]
        dsimp only
        by_cases hsign : sign = '+'.toNat ∨ sign = '-'.toNat
        · rw [if_pos hsign, if_pos hsign]
          exact digitsBehind_append _ (code :: sign :: digits) _ hrest
        · rw [if_neg hsign, if_neg hsign]
          exact digitsBehind_append _ (code :: sign :: digits) (sign :: digits) hrest
    · rw [if_neg he, if_neg he]
      rfl

/-- A number is read as it is when nothing follows. -/
theorem scanNumber_append (h : scanNumber text = .ok (value, after)) (hrest : Stops rest) :
    scanNumber (text ++ rest) = .ok (value, after ++ rest) := by
  have hsign : signPart (text ++ rest) = ((signPart text).1, (signPart text).2 ++ rest) := by
    cases text with
    | nil => cases h
    | cons code text =>
      rw [List.cons_append, signPart, signPart]
      split <;> rfl
  rw [scanNumber] at h ⊢
  rw [hsign]
  cases hint : intPart (signPart text).2 with
  | none =>
    simp only [hint] at h
    cases h
  | some int =>
    simp only [hint] at h
    rw [intPart_append hint hrest]
    dsimp only
    rw [fracPart_append _ hrest]
    dsimp only
    rw [expPart_append _ hrest]
    by_cases hwhole : (fracPart int.2).1 = [] ∧ (expPart (fracPart int.2).2).1 = []
    · rw [if_pos hwhole] at h ⊢
      by_cases hlong : intDigitsLimit < int.1.length
      · rw [if_pos hlong] at h
        cases h
      · rw [if_neg hlong] at h ⊢
        obtain ⟨rfl, rfl⟩ := Prod.mk.inj (Except.ok.inj h)
        rfl
    · rw [if_neg hwhole] at h ⊢
      obtain ⟨rfl, rfl⟩ := Prod.mk.inj (Except.ok.inj h)
      rfl

/-- A number starts with its sign or a digit, and a sign stands before a digit. -/
theorem head_of_scanNumber {read : Json × Text} (h : scanNumber text = .ok read) :
    ∃ code rest, isDigit code = true ∧
      (text = code :: rest ∨ text = '-'.toNat :: code :: rest) := by
  have hint : ∀ text part, intPart text = some part →
      ∃ code rest, text = code :: rest ∧ isDigit code = true := by
    intro text part hpart
    cases text with
    | nil => cases hpart
    | cons code rest =>
      refine ⟨code, rest, rfl, ?_⟩
      by_cases hzero : code = '0'.toNat
      · rw [hzero]
        rfl
      · by_cases hdigit : isDigit code = true
        · exact hdigit
        · rw [intPart, if_neg hzero, if_neg hdigit] at hpart
          cases hpart
  cases hpart : intPart (signPart text).2 with
  | none =>
    simp only [scanNumber, hpart] at h
    cases h
  | some part =>
    obtain ⟨code, rest, hcode, hdigit⟩ := hint _ part hpart
    refine ⟨code, rest, hdigit, ?_⟩
    cases text with
    | nil => cases hcode
    | cons sign text =>
      by_cases hsign : sign = '-'.toNat
      · rw [signPart, if_pos hsign] at hcode
        rw [hsign, ← hcode]
        exact Or.inr rfl
      · rw [signPart, if_neg hsign] at hcode
        exact Or.inl hcode

/-- No constant starts as a number does. -/
theorem scanConstant_number (hcode : isDigit code = true)
    (h : text = code :: rest ∨ text = '-'.toNat :: code :: rest) : scanConstant text = none := by
  have hdigit : ∀ letter : Nat, letter < 48 ∨ 57 < letter → (letter == code) = false := by
    intro letter hletter
    rw [isDigit, Bool.and_eq_true, decide_eq_true_eq, decide_eq_true_eq] at hcode
    rw [beq_eq_false_iff_ne]
    omega
  have hn := hdigit 110 (by omega)
  have ht := hdigit 116 (by omega)
  have hf := hdigit 102 (by omega)
  have hN := hdigit 78 (by omega)
  have hI := hdigit 73 (by omega)
  have hm := hdigit 45 (by omega)
  rcases h with rfl | rfl
  · simp [scanConstant, constants, codes, List.isPrefixOf?, hn, ht, hf, hN, hI, hm]
  · simp [scanConstant, constants, codes, List.isPrefixOf?, hI]

/-- An ASCII character that starts neither white space nor a container, and closes no array. -/
def Starts (code : Nat) : Prop :=
  code < 128 ∧ isSpace code = false ∧ code ≠ ']'.toNat ∧ code ≠ '['.toNat ∧ code ≠ '\x7b'.toNat

instance (code : Nat) : Decidable (Starts code) := inferInstanceAs (Decidable (_ ∧ _))

theorem starts_of_isDigit (h : isDigit code = true) : Starts code := by
  have hclose : ']'.toNat = 93 := rfl
  have hopen : '['.toNat = 91 := rfl
  have hopen' : '\x7b'.toNat = 123 := rfl
  rw [isDigit, Bool.and_eq_true, decide_eq_true_eq, decide_eq_true_eq] at h
  simp only [Starts, isSpace, Bool.or_eq_false_iff, decide_eq_false_iff_not]
  omega

/-- A number is read as one. -/
theorem scanAtom_number (h : scanNumber text = .ok (value, [])) (hrest : Stops rest) :
    scanAtom (text ++ rest) = .ok (value, rest) ∧
      ∃ code after, text = code :: after ∧ Starts code := by
  have hnumber := scanNumber_append h hrest
  obtain ⟨code, after, hdigit, htext⟩ := head_of_scanNumber hnumber
  have hconstant := scanConstant_number hdigit htext
  have hhead : (text ++ rest).head? ≠ some '"'.toNat := by
    intro hquote
    rcases htext with htext | htext
    · rw [htext, List.head?_cons] at hquote
      rw [Option.some.inj hquote] at hdigit
      exact absurd hdigit (by decide)
    · rw [htext, List.head?_cons] at hquote
      exact absurd (Option.some.inj hquote) (by decide)
  refine ⟨by rw [scanAtom, if_neg hhead, hconstant]; exact hnumber, ?_⟩
  obtain ⟨code, after, hdigit, htext⟩ := head_of_scanNumber h
  rcases htext with rfl | rfl
  · exact ⟨code, after, rfl, starts_of_isDigit hdigit⟩
  · exact ⟨'-'.toNat, code :: after, rfl, by decide⟩

/-! ### Values -/

/-- What holds no other value is read back from its text. -/
theorem scanAtom_writeRaw (hatom : value.nesting = 0) (h : value.Loaded)
    (hfloats : value.Floats IsSpelled) (hrest : Stops rest) :
    scanAtom (value.writeRaw ++ rest) = .ok (value, rest) ∧
      ∃ code after, value.writeRaw = code :: after ∧ Starts code := by
  cases value with
  | null => exact ⟨rfl, 'n'.toNat, _, rfl, by decide⟩
  | bool b => cases b with
    | false => exact ⟨rfl, 'f'.toNat, _, rfl, by decide⟩
    | true => exact ⟨rfl, 't'.toNat, _, rfl, by decide⟩
  | int n =>
    have hint : scanNumber (codes (toString n)) = .ok (.int n, []) := by
      have hnumber := scanNumber_int h Stops.nil
      rw [List.append_nil] at hnumber
      exact hnumber
    exact scanAtom_number hint hrest
  | float literal =>
    rcases hfloats with hfloat | hconstant
    · exact scanAtom_number hfloat hrest
    · simp only [List.mem_cons, List.not_mem_nil, or_false] at hconstant
      rcases hconstant with rfl | rfl | rfl
      · exact ⟨rfl, 'N'.toNat, _, rfl, by decide⟩
      · exact ⟨rfl, 'I'.toNat, _, rfl, by decide⟩
      · exact ⟨rfl, '-'.toNat, _, rfl, by decide⟩
  | str text =>
    refine ⟨?_, '"'.toNat, _, rfl, by decide⟩
    rw [Json.writeRaw, writeRawText_append, scanAtom, List.head?_cons, if_pos rfl, List.tail_cons,
      scanString_writeRaw]
    rfl
  | list items =>
    rw [Json.nesting] at hatom
    omega
  | dict fields =>
    rw [Json.nesting] at hatom
    omega

/-- No text of a value starts with white space or a closing bracket. -/
theorem head_writeRaw (h : value.Loaded) (hfloats : value.Floats IsSpelled) :
    ∃ code after, value.writeRaw = code :: after ∧ code < 128 ∧ isSpace code = false ∧
      code ≠ ']'.toNat := by
  cases value with
  | list items => exact ⟨'['.toNat, _, rfl, by decide⟩
  | dict fields => exact ⟨'\x7b'.toNat, _, rfl, by decide⟩
  | null | bool | int | float | str =>
    obtain ⟨-, code, after, hwrite, hlt, hspace, hclose, -⟩ :=
      scanAtom_writeRaw rfl h hfloats Stops.nil
    exact ⟨code, after, hwrite, hlt, hspace, hclose⟩

theorem scanOnce_atom (room : Nat) (hatom : value.nesting = 0) (h : value.Loaded)
    (hfloats : value.Floats IsSpelled) (hrest : Stops rest) :
    scanOnce room (value.writeRaw ++ rest) = .ok (value, rest) := by
  obtain ⟨hscan, code, after, hwrite, -, -, -, hbracket, hbrace⟩ :=
    scanAtom_writeRaw hatom h hfloats hrest
  have hhead : ∀ other : Nat, code ≠ other → (value.writeRaw ++ rest).head? ≠ some other := by
    intro other hne heq
    rw [hwrite] at heq
    exact hne (Option.some.inj heq)
  cases room with
  | zero =>
    rw [scanOnce, if_neg, hscan]
    rintro (heq | heq)
    · exact hhead _ hbracket heq
    · exact hhead _ hbrace heq
  | succ room => rw [scanOnce, if_neg (hhead _ hbracket), if_neg (hhead _ hbrace), hscan]

theorem skipSpace_writeRaw (h : value.Loaded) (hfloats : value.Floats IsSpelled) (rest : Text) :
    skipSpace (value.writeRaw ++ rest) = value.writeRaw ++ rest := by
  obtain ⟨code, after, hwrite, -, hspace, -⟩ := head_writeRaw h hfloats
  rw [hwrite, List.cons_append, skipSpace_cons _ hspace]

theorem length_le_writeRawItems (sep : Text) (h : LoadedItems items)
    (hfloats : FloatsItems IsSpelled items) :
    items.length ≤ (writeRawItems sep items).length := by
  induction items generalizing sep with
  | nil => exact Nat.zero_le _
  | cons value items ih =>
    rw [LoadedItems] at h
    rw [FloatsItems] at hfloats
    have hrest := ih (codes ", ") h.2 hfloats.2
    obtain ⟨code, after, hwrite, -⟩ := head_writeRaw h.1 hfloats.1
    rw [writeRawItems, hwrite]
    simp only [List.length_append, List.length_cons]
    omega

theorem length_le_writeRawFields (sep : Text) (fields : Fields) :
    fields.length ≤ (writeRawFields sep fields).length := by
  induction fields generalizing sep with
  | nil => exact Nat.zero_le _
  | cons entry fields ih =>
    have hrest := ih (codes ", ")
    rw [writeRawFields, writeRawText]
    simp only [List.length_append, List.length_cons]
    omega

/-! What the loops over items and fields make of the value they read. -/

theorem scanItems_last {scan : Scan} {fuel : Nat} {text rest : Text} {value : Json}
    (h : scan text = .ok (value, ']'.toNat :: rest)) :
    scanItems scan (fuel + 1) text = .ok ([value], rest) := by
  rw [scanItems, h]
  rfl

theorem scanItems_more (h : scan text = .ok (value, ','.toNat :: rest)) :
    scanItems scan (fuel + 1) text =
      (scanItems scan fuel (skipSpace rest)).map fun read => (value :: read.1, read.2) := by
  rw [scanItems, h]
  rfl

theorem scanField_writeRaw {scan : Scan} {key text rest : Text} {value : Json}
    (hskip : skipSpace text = text) (h : scan text = .ok (value, rest)) :
    scanField scan (writeRawText key ++ codes ": " ++ text) = .ok ((key, value), rest) := by
  have hcolon : skipSpace (codes ": " ++ text) = codes ": " ++ text := skipSpace_cons _ (by decide)
  have hspace : skipSpace (' '.toNat :: text) = text := hskip
  have htail : (codes ": " ++ text).tail = ' '.toNat :: text := rfl
  rw [List.append_assoc, writeRawText_append, scanField, List.head?_cons, if_pos rfl,
    List.tail_cons, scanString_writeRaw]
  dsimp only
  rw [hcolon, htail, hspace, h]
  rfl

theorem scanFields_last (h : scanField scan text = .ok (entry, '\x7d'.toNat :: rest)) :
    scanFields scan (fuel + 1) text = .ok ([entry], rest) := by
  rw [scanFields, h]
  rfl

theorem scanFields_more (h : scanField scan text = .ok (entry, ','.toNat :: rest)) :
    scanFields scan (fuel + 1) text =
      (scanFields scan fuel (skipSpace rest)).map fun read => (entry :: read.1, read.2) := by
  rw [scanFields, h]
  rfl

mutual

/-- **Reading back**: the text of a value is read as that value, where there is room for its
containers. -/
theorem scanOnce_writeRaw : ∀ (value : Json) (room : Nat) (rest : Text), value.Loaded →
    value.Floats IsSpelled → value.nesting ≤ room → Stops rest →
      scanOnce room (value.writeRaw ++ rest) = .ok (value, rest)
  | .list items, 0, _, _, _, hroom, _ => by
    rw [Json.nesting] at hroom
    omega
  | .dict fields, 0, _, _, _, hroom, _ => by
    rw [Json.nesting] at hroom
    omega
  | .list [], room + 1, rest, _, _, _, _ => rfl
  | .list (value :: items), room + 1, rest, h, hfloats, hroom, _ => by
    rw [Json.Loaded] at h
    rw [Json.Floats] at hfloats
    rw [Json.nesting] at hroom
    have hlength := length_le_writeRawItems [] h hfloats
    have hitems := scanItems_writeRaw (value :: items) room rest
      ((writeRawItems [] (value :: items) ++ ']'.toNat :: rest).length + 1) (List.cons_ne_nil _ _) h
      hfloats (by omega) (by rw [List.length_append]; omega)
    obtain ⟨code, after, hwrite, -, hspace, hclose⟩ := head_writeRaw h.1 hfloats.1
    have htext : writeRawItems [] (value :: items) ++ ']'.toNat :: rest =
        code :: (after ++ (writeRawItems (codes ", ") items ++ ']'.toNat :: rest)) := by
      rw [writeRawItems, List.nil_append, hwrite, List.append_assoc, List.cons_append]
    have hskip : skipSpace (writeRawItems [] (value :: items) ++ ']'.toNat :: rest) =
        writeRawItems [] (value :: items) ++ ']'.toNat :: rest := by
      rw [htext, skipSpace_cons _ hspace]
    have hhead : (writeRawItems [] (value :: items) ++ ']'.toNat :: rest).head? ≠
        some ']'.toNat := by
      rw [htext, List.head?_cons]
      exact fun heq => hclose (Option.some.inj heq)
    rw [Json.writeRaw, List.cons_append, List.append_assoc, List.singleton_append, scanOnce,
      List.head?_cons, if_pos rfl, List.tail_cons, scanArray, hskip, if_neg hhead, hitems]
    rfl
  | .dict [], room + 1, rest, _, _, _, _ => rfl
  | .dict (entry :: fields), room + 1, rest, h, hfloats, hroom, _ => by
    rw [Json.Loaded] at h
    rw [Json.Floats] at hfloats
    rw [Json.nesting] at hroom
    have hlength := length_le_writeRawFields [] (entry :: fields)
    have hfields := scanFields_writeRaw (entry :: fields) room rest
      ((writeRawFields [] (entry :: fields) ++ '\x7d'.toNat :: rest).length + 1)
      (List.cons_ne_nil _ _) h.2 hfloats (by omega) (by rw [List.length_append]; omega)
    obtain ⟨after, htext⟩ : ∃ after, writeRawFields [] (entry :: fields) ++ '\x7d'.toNat :: rest =
        '"'.toNat :: after := ⟨_, rfl⟩
    have hskip : skipSpace (writeRawFields [] (entry :: fields) ++ '\x7d'.toNat :: rest) =
        writeRawFields [] (entry :: fields) ++ '\x7d'.toNat :: rest := by
      rw [htext, skipSpace_cons _ (by decide)]
    have hhead : (writeRawFields [] (entry :: fields) ++ '\x7d'.toNat :: rest).head? ≠
        some '\x7d'.toNat := by
      rw [htext, List.head?_cons]
      decide
    rw [Json.writeRaw, List.cons_append, List.append_assoc, List.singleton_append, scanOnce,
      List.head?_cons, if_neg (by decide), if_pos rfl, List.tail_cons, scanObject, hskip,
      if_neg hhead, hfields]
    show Except.ok (Json.dict (dictOf (entry :: fields)), rest) = _
    rw [dictOf_eq h.1]
  | .null, room, rest, h, hfloats, _, hrest => scanOnce_atom room rfl h hfloats hrest
  | .bool _, room, rest, h, hfloats, _, hrest => scanOnce_atom room rfl h hfloats hrest
  | .int _, room, rest, h, hfloats, _, hrest => scanOnce_atom room rfl h hfloats hrest
  | .float _, room, rest, h, hfloats, _, hrest => scanOnce_atom room rfl h hfloats hrest
  | .str _, room, rest, h, hfloats, _, hrest => scanOnce_atom room rfl h hfloats hrest

theorem scanItems_writeRaw : ∀ (items : List Json) (room : Nat) (rest : Text) (fuel : Nat),
    items ≠ [] → LoadedItems items → FloatsItems IsSpelled items → nestingItems items ≤ room →
      items.length ≤ fuel →
        scanItems (scanOnce room) fuel (writeRawItems [] items ++ ']'.toNat :: rest) =
          .ok (items, rest)
  | [], _, _, _, hne, _, _, _, _ => absurd rfl hne
  | [value], room, rest, fuel, _, h, hfloats, hroom, hfuel => by
    rw [nestingItems, nestingItems] at hroom
    obtain ⟨fuel, rfl⟩ := Nat.exists_eq_add_of_le' hfuel
    have hvalue := scanOnce_writeRaw value room (']'.toNat :: rest) h.1 hfloats.1 (by omega)
      (.bracket rest)
    rw [writeRawItems, writeRawItems, List.nil_append, List.append_nil]
    exact scanItems_last hvalue
  | value :: item :: items, room, rest, fuel, _, h, hfloats, hroom, hfuel => by
    rw [nestingItems] at hroom
    rw [List.length_cons] at hfuel
    obtain ⟨fuel, rfl⟩ := Nat.exists_eq_add_of_le' (show 1 ≤ fuel by omega)
    have hvalue := scanOnce_writeRaw value room
      (','.toNat :: ' '.toNat :: (writeRawItems [] (item :: items) ++ ']'.toNat :: rest)) h.1
      hfloats.1 (by omega) (.comma _)
    have hitems := scanItems_writeRaw (item :: items) room rest fuel (List.cons_ne_nil _ _) h.2
      hfloats.2 (by omega) (by omega)
    have hskip : skipSpace (' '.toNat ::
        (writeRawItems [] (item :: items) ++ ']'.toNat :: rest)) =
          writeRawItems [] (item :: items) ++ ']'.toNat :: rest := by
      have hitem := skipSpace_writeRaw h.2.1 hfloats.2.1
        (writeRawItems (codes ", ") items ++ ']'.toNat :: rest)
      rw [← List.append_assoc] at hitem
      exact hitem
    have htext : writeRawItems [] (value :: item :: items) ++ ']'.toNat :: rest =
        value.writeRaw ++
          (','.toNat :: ' '.toNat :: (writeRawItems [] (item :: items) ++ ']'.toNat :: rest)) := by
      rw [writeRawItems, writeRawItems, writeRawItems, List.nil_append, List.nil_append,
        List.append_assoc]
      rfl
    rw [htext, scanItems_more hvalue, hskip, hitems]
    rfl

theorem scanFields_writeRaw : ∀ (fields : Fields) (room : Nat) (rest : Text) (fuel : Nat),
    fields ≠ [] → LoadedFields fields → FloatsFields IsSpelled fields →
      nestingFields fields ≤ room → fields.length ≤ fuel →
        scanFields (scanOnce room) fuel (writeRawFields [] fields ++ '\x7d'.toNat :: rest) =
          .ok (fields, rest)
  | [], _, _, _, hne, _, _, _, _ => absurd rfl hne
  | [(key, value)], room, rest, fuel, _, h, hfloats, hroom, hfuel => by
    rw [nestingFields, nestingFields] at hroom
    obtain ⟨fuel, rfl⟩ := Nat.exists_eq_add_of_le' hfuel
    have hvalue := scanOnce_writeRaw value room ('\x7d'.toNat :: rest) h.1 hfloats.1 (by omega)
      (.brace rest)
    have hfield := @scanField_writeRaw (scanOnce room) key _ _ _
      (skipSpace_writeRaw h.1 hfloats.1 _) hvalue
    rw [writeRawFields, writeRawFields, List.nil_append, List.append_nil, List.append_assoc]
    exact scanFields_last hfield
  | (key, value) :: entry :: fields, room, rest, fuel, _, h, hfloats, hroom, hfuel => by
    rw [nestingFields] at hroom
    rw [List.length_cons] at hfuel
    obtain ⟨fuel, rfl⟩ := Nat.exists_eq_add_of_le' (show 1 ≤ fuel by omega)
    have hvalue := scanOnce_writeRaw value room
      (','.toNat :: ' '.toNat :: (writeRawFields [] (entry :: fields) ++ '\x7d'.toNat :: rest)) h.1
      hfloats.1 (by omega) (.comma _)
    have hfield := @scanField_writeRaw (scanOnce room) key _ _ _
      (skipSpace_writeRaw h.1 hfloats.1 _) hvalue
    have hfields := scanFields_writeRaw (entry :: fields) room rest fuel (List.cons_ne_nil _ _) h.2
      hfloats.2 (by omega) (by omega)
    have hskip : skipSpace (' '.toNat ::
        (writeRawFields [] (entry :: fields) ++ '\x7d'.toNat :: rest)) =
          writeRawFields [] (entry :: fields) ++ '\x7d'.toNat :: rest := rfl
    have htext : writeRawFields [] ((key, value) :: entry :: fields) ++ '\x7d'.toNat :: rest =
        writeRawText key ++ codes ": " ++ (value.writeRaw ++
          (','.toNat :: ' '.toNat ::
            (writeRawFields [] (entry :: fields) ++ '\x7d'.toNat :: rest))) := by
      rw [writeRawFields, writeRawFields, writeRawFields, List.nil_append, List.nil_append]
      simp only [List.append_assoc]
      rfl
    rw [htext, scanFields_more hfield, hskip, hfields]
    rfl

end

mutual

/-- A value is no deeper than its text is long. -/
theorem nesting_le_length : ∀ value : Json, value.nesting ≤ value.writeRaw.length
  | .list items => by
    have hitems := nestingItems_le_length [] items
    rw [Json.nesting, Json.writeRaw, List.length_cons, List.length_append]
    omega
  | .dict fields => by
    have hfields := nestingFields_le_length [] fields
    rw [Json.nesting, Json.writeRaw, List.length_cons, List.length_append]
    omega
  | .null | .bool _ | .int _ | .float _ | .str _ => Nat.zero_le _

theorem nestingItems_le_length (sep : Text) : ∀ items : List Json,
    nestingItems items ≤ (writeRawItems sep items).length
  | [] => Nat.zero_le _
  | value :: items => by
    have hvalue := nesting_le_length value
    have hitems := nestingItems_le_length (codes ", ") items
    rw [nestingItems, writeRawItems]
    simp only [List.length_append]
    omega

theorem nestingFields_le_length (sep : Text) : ∀ fields : Fields,
    nestingFields fields ≤ (writeRawFields sep fields).length
  | [] => Nat.zero_le _
  | (_, value) :: fields => by
    have hvalue := nesting_le_length value
    have hfields := nestingFields_le_length (codes ", ") fields
    rw [nestingFields, writeRawFields]
    simp only [List.length_append]
    omega

end

/-- **Round trip**: a reader with room for as many containers as the text has characters reads the
value back. -/
theorem loadsText_writeRaw (h : value.Loaded) (hfloats : value.Floats IsSpelled) :
    loadsText value.writeRaw.length value.writeRaw = .ok value := by
  obtain ⟨code, after, hwrite, hlt, -⟩ := head_writeRaw h hfloats
  have hmark : value.writeRaw.head? ≠ some 0xfeff := by
    rw [hwrite, List.head?_cons]
    intro heq
    rw [Option.some.inj heq] at hlt
    omega
  have hskip := skipSpace_writeRaw h hfloats []
  have hread := scanOnce_writeRaw value value.writeRaw.length [] h hfloats (nesting_le_length value)
    Stops.nil
  rw [List.append_nil] at hskip hread
  rw [loadsText, if_neg hmark, hskip, hread]
  rfl

/-! ### The code points of a text -/

/-- A printable ASCII character. -/
def Printable (code : Nat) : Prop := 32 ≤ code ∧ code < 128

instance (code : Nat) : Decidable (Printable code) := inferInstanceAs (Decidable (_ ∧ _))

theorem printable_of_isDigit (h : isDigit code = true) : Printable code := by
  rw [isDigit, Bool.and_eq_true, decide_eq_true_eq, decide_eq_true_eq] at h
  exact ⟨by omega, by omega⟩

theorem printable_append {text' : Text} (h : ∀ code ∈ text, Printable code)
    (h' : ∀ code ∈ text', Printable code) : ∀ code ∈ text ++ text', Printable code := by
  exact List.forall_mem_append.mpr ⟨h, h'⟩

theorem digits_of_intPart {part : Text × Text} (h : intPart text = some part) :
    0 < part.1.length ∧ ∀ code ∈ part.1, isDigit code = true := by
  cases text with
  | nil => cases h
  | cons code rest =>
    rw [intPart] at h
    by_cases hzero : code = '0'.toNat
    · rw [if_pos hzero] at h
      obtain rfl := Option.some.inj h
      refine ⟨Nat.zero_lt_one, fun other hother => ?_⟩
      rw [List.mem_singleton.mp hother, hzero]
      rfl
    · rw [if_neg hzero] at h
      by_cases hdigit : isDigit code = true
      · rw [if_pos hdigit] at h
        obtain rfl := Option.some.inj h
        refine ⟨?_, fun other hother => List.mem_takeWhile_imp hother⟩
        rw [List.takeWhile_cons, hdigit]
        exact Nat.succ_pos _
      · rw [if_neg hdigit] at h
        cases h

theorem printable_of_isNumeral {code : Nat} (h : IsNumeral code) : Printable code := by
  rcases h with h | h
  · exact printable_of_isDigit h
  · have hall : ∀ code ∈ codes "+-.Ee", Printable code := by decide
    exact hall code h

/-- The text of a float is ASCII. -/
theorem printable_of_isSpelled (h : IsSpelled text) : ∀ code ∈ text, Printable code := by
  rcases h with h | h
  · obtain ⟨read, htext, hcodes⟩ := numerals_scanNumber h
    rw [htext, List.append_nil]
    exact fun code hcode => printable_of_isNumeral (hcodes code hcode)
  · have hall : ∀ text ∈ [codes "NaN", codes "Infinity", codes "-Infinity"], ∀ code ∈ text,
        Printable code := by decide
    exact hall text h

theorem printable_int (n : Int) : ∀ code ∈ codes (toString n), Printable code := by
  have hdigits : ∀ n : Nat, ∀ code ∈ digitCodes n, Printable code := fun n code hcode =>
    printable_of_isDigit (isDigit_of_mem_digitCodes hcode)
  rw [Int.toString_eq_repr, Int.repr_eq_if]
  split
  · rw [codes, Nat.toList_repr]
    exact hdigits _
  · rw [codes, String.toList_append, List.map_append, Nat.toList_repr]
    exact printable_append (by decide) (hdigits _)

theorem printable_unitEscape (h : code < 32) : ∀ other ∈ unitEscape code, Printable other := by
  have hall : ∀ code : Fin 32, ∀ other ∈ unitEscape code.val, Printable other := by decide
  exact hall ⟨code, h⟩

section

variable {p : Nat → Prop}

section

variable (hp : ∀ code, Printable code → p code)
include hp

theorem forall_printable {text : Text} (h : ∀ code ∈ text, Printable code) :
    ∀ code ∈ text, p code :=
  fun code hcode => hp code (h code hcode)

/-- What is written for a code point has it, or is printable ASCII. -/
theorem forall_escapeRaw (code : Nat) :
    (∀ other ∈ escapeRaw code, p other) ↔ (code < 32 ∨ p code) := by
  have hall : ∀ text : Text, (∀ other ∈ text, Printable other) → ∀ other ∈ text, p other :=
    fun text htext other hother => hp other (htext other hother)
  unfold escapeRaw
  by_cases hquote : code = '"'.toNat
  · rw [if_pos hquote]
    exact iff_of_true (hall _ (by decide)) (Or.inr (hp _ (by rw [hquote]; decide)))
  rw [if_neg hquote]
  by_cases hslash : code = '\\'.toNat
  · rw [if_pos hslash]
    exact iff_of_true (hall _ (by decide)) (Or.inr (hp _ (by rw [hslash]; decide)))
  rw [if_neg hslash]
  by_cases hcontrol : code < 32
  · refine iff_of_true ?_ (Or.inl hcontrol)
    split_ifs
    iterate 5 exact hall _ (by decide)
    exact hall _ (printable_unitEscape hcontrol)
  · rw [if_neg (by omega), if_neg (by omega), if_neg (by omega), if_neg (by omega),
      if_neg (by omega), if_neg hcontrol, List.forall_mem_singleton]
    exact ⟨Or.inr, fun h => h.resolve_left hcontrol⟩

theorem forall_writeRawText (text : Text) :
    (∀ other ∈ writeRawText text, p other) ↔ ∀ code ∈ text, code < 32 ∨ p code := by
  have hquote : p '"'.toNat := hp _ (by decide)
  rw [writeRawText, List.forall_mem_cons, List.forall_mem_append, List.forall_mem_singleton]
  simp only [hquote, true_and, and_true]
  induction text with
  | nil => simp
  | cons code text ih =>
    rw [List.flatMap_cons, List.forall_mem_append, List.forall_mem_cons, forall_escapeRaw hp code]
    exact and_congr_right fun _ => ih

end

mutual

/-- **The code points** of a value's text are printable ASCII but for those of its strs. -/
theorem forall_writeRaw (hp : ∀ code, Printable code → p code) : ∀ value : Json,
    value.Floats IsSpelled → ((∀ other ∈ value.writeRaw, p other) ↔
      value.Strs fun text => ∀ code ∈ text, code < 32 ∨ p code)
  | .null, _ => iff_of_true (forall_printable hp (by decide)) trivial
  | .bool b, _ => iff_of_true (forall_printable hp (by cases b <;> decide)) trivial
  | .int n, _ => iff_of_true (forall_printable hp (printable_int n)) trivial
  | .float literal, hfloats =>
    iff_of_true (forall_printable hp (printable_of_isSpelled hfloats)) trivial
  | .str text, _ => forall_writeRawText hp text
  | .list items, hfloats => by
    have hopen : p '['.toNat := hp _ (by decide)
    have hclose : p ']'.toNat := hp _ (by decide)
    have hitems := forall_writeRawItems hp items [] (fun _ h => nomatch h) hfloats
    rw [Json.writeRaw, Json.Strs, List.forall_mem_cons, List.forall_mem_append,
      List.forall_mem_singleton, hitems]
    simp only [hopen, hclose, true_and, and_true]
  | .dict fields, hfloats => by
    have hopen : p '\x7b'.toNat := hp _ (by decide)
    have hclose : p '\x7d'.toNat := hp _ (by decide)
    have hfields := forall_writeRawFields hp fields [] (fun _ h => nomatch h) hfloats
    rw [Json.writeRaw, Json.Strs, List.forall_mem_cons, List.forall_mem_append,
      List.forall_mem_singleton, hfields]
    simp only [hopen, hclose, true_and, and_true]

theorem forall_writeRawItems (hp : ∀ code, Printable code → p code) : ∀ (items : List Json)
    (sep : Text), (∀ code ∈ sep, Printable code) → FloatsItems IsSpelled items →
      ((∀ other ∈ writeRawItems sep items, p other) ↔
        StrsItems (fun text => ∀ code ∈ text, code < 32 ∨ p code) items)
  | [], _, _, _ => iff_of_true (fun _ h => nomatch h) trivial
  | value :: items, sep, hsep, hfloats => by
    have hvalue := forall_writeRaw hp value hfloats.1
    have hitems := forall_writeRawItems hp items (codes ", ") (by decide) hfloats.2
    rw [writeRawItems, StrsItems, List.forall_mem_append, List.forall_mem_append, hvalue, hitems]
    exact and_iff_right (forall_printable hp hsep)

theorem forall_writeRawFields (hp : ∀ code, Printable code → p code) : ∀ (fields : Fields)
    (sep : Text), (∀ code ∈ sep, Printable code) → FloatsFields IsSpelled fields →
      ((∀ other ∈ writeRawFields sep fields, p other) ↔
        StrsFields (fun text => ∀ code ∈ text, code < 32 ∨ p code) fields)
  | [], _, _, _ => iff_of_true (fun _ h => nomatch h) trivial
  | (key, value) :: fields, sep, hsep, hfloats => by
    have hkey := forall_writeRawText hp key
    have hvalue := forall_writeRaw hp value hfloats.1
    have hfields := forall_writeRawFields hp fields (codes ", ") (by decide) hfloats.2
    have hcolon : ∀ other ∈ codes ": ", p other := forall_printable hp (by decide)
    rw [writeRawFields, StrsFields, List.forall_mem_append, List.forall_mem_append,
      List.forall_mem_append, List.forall_mem_append, hkey, hvalue, hfields,
      and_iff_right (forall_printable hp hsep), and_iff_left hcolon, and_assoc]

end

end

/-- A value's text can be encoded iff its strs can. -/
theorem scalar_spelled {spell : Text → Text} (hspell : ∀ literal, IsSpelled (spell literal))
    (value : Json) : Scalar (value.spelled spell).writeRaw ↔ value.Strs Scalar := by
  have hprintable : ∀ code, Printable code → code.isValidChar :=
    fun code h => Or.inl (by have := h.2; omega)
  have hcontrol : (fun text : Text => ∀ code ∈ text, code < 32 ∨ code.isValidChar) = Scalar := by
    funext text
    refine propext (forall₂_congr fun code _ => ?_)
    exact or_iff_right_of_imp fun h => Or.inl (by omega)
  have hfloats : (value.spelled spell).Floats IsSpelled :=
    (floats_spelled spell IsSpelled value).mpr (Json.Floats.of_forall hspell value)
  have hcodes := forall_writeRaw hprintable (value.spelled spell) hfloats
  rw [hcontrol] at hcodes
  exact hcodes.trans (strs_spelled spell Scalar value)

/-! ### What is read -/

theorem numberOf_lt (h : ∀ code ∈ digits, isDigit code = true) :
    numberOf digits < 10 ^ digits.length := by
  induction digits with
  | nil => exact Nat.zero_lt_one
  | cons code digits ih =>
    have hrest := ih fun other hother => h other (List.mem_cons_of_mem _ hother)
    have hcode := h code List.mem_cons_self
    rw [isDigit, Bool.and_eq_true, decide_eq_true_eq, decide_eq_true_eq] at hcode
    have hchar : (Char.ofNat code).toNat = code := by
      have hvalid : code.isValidChar := Or.inl (by omega)
      rw [Char.ofNat, dif_pos hvalid]
      rfl
    have hzero : '0'.toNat = 48 := rfl
    unfold numberOf at hrest ⊢
    rw [List.map_cons, Nat.ofDigitChars_cons, Nat.ofDigitChars_eq_ofDigitChars_zero, hchar, hzero,
      List.length_map, List.length_cons, Nat.pow_succ]
    have hmul : 10 ^ digits.length * (10 * 0 + (code - 48)) ≤ 10 ^ digits.length * 9 :=
      Nat.mul_le_mul_left _ (by omega)
    omega

theorem loaded_of_scanNumber (h : scanNumber text = .ok (value, rest)) : value.Loaded := by
  rw [scanNumber] at h
  cases hint : intPart (signPart text).2 with
  | none =>
    simp only [hint] at h
    cases h
  | some int =>
    simp only [hint] at h
    obtain ⟨hpos, hdigits⟩ := digits_of_intPart hint
    have hlt := numberOf_lt hdigits
    have hlength := (@Nat.length_toDigits_le_iff 10 _ _ (by decide) hpos).mpr hlt
    split_ifs at h with hwhole hlong hsign
    · obtain ⟨rfl, -⟩ := Prod.mk.inj (Except.ok.inj h)
      show (Nat.toDigits 10 (numberOf int.1)).length ≤ intDigitsLimit
      omega
    · obtain ⟨rfl, -⟩ := Prod.mk.inj (Except.ok.inj h)
      rw [Json.Loaded, Int.natAbs_neg]
      show (Nat.toDigits 10 (numberOf int.1)).length ≤ intDigitsLimit
      omega
    · obtain ⟨rfl, -⟩ := Prod.mk.inj (Except.ok.inj h)
      trivial

theorem loaded_of_scanAtom (h : scanAtom text = .ok (value, rest)) : value.Loaded := by
  rw [scanAtom] at h
  by_cases hquote : text.head? = some '"'.toNat
  · rw [if_pos hquote] at h
    obtain ⟨read, -, heq⟩ := map_eq_ok.mp h
    obtain ⟨rfl, -⟩ := Prod.mk.inj heq
    trivial
  · rw [if_neg hquote] at h
    cases hconstant : scanConstant text with
    | none =>
      simp only [hconstant] at h
      exact loaded_of_scanNumber h
    | some read =>
      simp only [hconstant] at h
      obtain rfl := Except.ok.inj h
      obtain ⟨constant, hmem, hfound⟩ := List.exists_of_findSome?_eq_some hconstant
      obtain ⟨after, -, heq⟩ := Option.map_eq_some_iff.mp hfound
      obtain ⟨rfl, -⟩ := Prod.mk.inj heq
      simp only [constants, List.mem_cons, List.not_mem_nil, or_false] at hmem
      rcases hmem with rfl | rfl | rfl | rfl | rfl | rfl <;> trivial

theorem loadedItems_iff : LoadedItems items ↔ ∀ value ∈ items, value.Loaded := by
  induction items with
  | nil => simp [LoadedItems]
  | cons value items ih => rw [LoadedItems, ih, List.forall_mem_cons]

theorem loadedFields_iff : LoadedFields fields ↔ ∀ entry ∈ fields, entry.2.Loaded := by
  induction fields with
  | nil => simp [LoadedFields]
  | cons entry fields ih => rw [LoadedFields, ih, List.forall_mem_cons]

theorem loaded_setItem {key : Text} (h : (Json.dict fields).Loaded) (hvalue : value.Loaded) :
    (Json.dict (setItem fields key value)).Loaded := by
  rw [Json.Loaded, loadedFields_iff] at h ⊢
  unfold setItem
  by_cases hkey : key ∈ fields.map Prod.fst
  · rw [if_pos hkey]
    have hkeys : (fields.map fun item => if item.1 = key then (key, value) else item).map Prod.fst =
        fields.map Prod.fst := by
      rw [List.map_map]
      apply List.map_congr_left
      intro item _
      show (if item.1 = key then (key, value) else item).1 = item.1
      split
      · next heq => exact heq.symm
      · rfl
    refine ⟨hkeys ▸ h.1, fun entry hentry => ?_⟩
    obtain ⟨item, hitem, rfl⟩ := List.mem_map.mp hentry
    split
    · exact hvalue
    · exact h.2 item hitem
  · rw [if_neg hkey]
    constructor
    · rw [List.map_append]
      refine List.nodup_append.mpr ⟨h.1, List.nodup_singleton _, ?_⟩
      intro other hother found hfound
      rw [List.map_cons, List.map_nil, List.mem_singleton] at hfound
      rw [hfound]
      rintro rfl
      exact hkey hother
    · intro entry hentry
      rcases List.mem_append.mp hentry with hentry | hentry
      · exact h.2 entry hentry
      · rw [List.mem_singleton.mp hentry]
        exact hvalue

/-- A dict has each key once, whatever was read. -/
theorem loaded_dictOf {items : Fields} (h : ∀ entry ∈ items, entry.2.Loaded) :
    (Json.dict (dictOf items)).Loaded := by
  have hfold : ∀ fields : Fields, (Json.dict fields).Loaded →
      (Json.dict (items.foldl (fun fields item => setItem fields item.1 item.2) fields)).Loaded := by
    induction items with
    | nil => exact fun _ hfields => hfields
    | cons item items ih =>
      intro fields hfields
      exact ih (fun entry hentry => h entry (List.mem_cons_of_mem _ hentry)) _
        (loaded_setItem hfields (h item List.mem_cons_self))
  exact hfold [] ⟨List.nodup_nil, trivial⟩

/-- The values that a reader answers can be read. -/
def Loads (scan : Scan) : Prop :=
  ∀ text value rest, scan text = .ok (value, rest) → value.Loaded

theorem loads_scanField (hscan : Loads scan) (h : scanField scan text = .ok (entry, rest)) :
    entry.2.Loaded := by
  rw [scanField] at h
  by_cases hquote : text.head? = some '"'.toNat
  · rw [if_pos hquote] at h
    cases hkey : scanString none text.tail with
    | error fault =>
      simp only [hkey] at h
      cases h
    | ok key =>
      simp only [hkey] at h
      by_cases hcolon : (skipSpace key.2).head? = some ':'.toNat
      · rw [if_pos hcolon] at h
        obtain ⟨read, hread, heq⟩ := map_eq_ok.mp h
        obtain ⟨rfl, -⟩ := Prod.mk.inj heq
        exact hscan _ read.1 read.2 hread
      · rw [if_neg hcolon] at h
        cases h
  · rw [if_neg hquote] at h
    cases h

/-- What holds of every element that is read holds of all. -/
theorem forall_scanSeries {α : Type} {P : α → Prop} {close : Nat}
    {scan : Text → Except Fault (α × Text)} {values : List α}
    (hscan : ∀ {text value rest}, scan text = .ok (value, rest) → P value)
    (h : scanSeries close scan fuel text = .ok (values, rest)) : ∀ value ∈ values, P value := by
  induction fuel generalizing text values with
  | zero => cases h
  | succ fuel ih =>
    obtain ⟨value, after, code, after', hvalue, -, ⟨-, rfl, -⟩ | ⟨-, values', hmore, rfl⟩⟩ :=
      scanSeries_cases h
    · exact List.forall_mem_singleton.mpr (hscan hvalue)
    · exact List.forall_mem_cons.mpr ⟨hscan hvalue, ih hmore⟩

/-- What a text is read as can be written. -/
theorem loads_scanOnce (room : Nat) : Loads (scanOnce room) := by
  induction room with
  | zero =>
    intro text value rest h
    rw [scanOnce] at h
    split_ifs at h
    exact loaded_of_scanAtom h
  | succ room ih =>
    intro text value rest h
    rw [scanOnce] at h
    split_ifs at h with hbracket hbrace
    · rw [scanArray] at h
      split_ifs at h
      · obtain ⟨rfl, -⟩ := Prod.mk.inj (Except.ok.inj h)
        trivial
      · obtain ⟨read, hread, heq⟩ := map_eq_ok.mp h
        obtain ⟨rfl, -⟩ := Prod.mk.inj heq
        rw [scanItems_eq] at hread
        exact loadedItems_iff.mpr (forall_scanSeries (ih _ _ _) hread)
    · rw [scanObject] at h
      split_ifs at h
      · obtain ⟨rfl, -⟩ := Prod.mk.inj (Except.ok.inj h)
        exact ⟨List.nodup_nil, trivial⟩
      · obtain ⟨read, hread, heq⟩ := map_eq_ok.mp h
        obtain ⟨rfl, -⟩ := Prod.mk.inj heq
        rw [scanFields_eq] at hread
        exact loaded_dictOf (forall_scanSeries (loads_scanField ih) hread)
    · exact loaded_of_scanAtom h

theorem loaded_of_loadsText {room : Nat} (h : loadsText room text = .ok value) : value.Loaded := by
  rw [loadsText] at h
  split_ifs at h
  cases hread : scanOnce room (skipSpace text) with
  | error fault =>
    simp only [hread] at h
    cases h
  | ok read =>
    simp only [hread] at h
    split_ifs at h
    obtain rfl := Except.ok.inj h
    exact loads_scanOnce room _ read.1 read.2 hread

end Lnpl.Lib.JsonText
