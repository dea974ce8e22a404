import Lnpl.Front.Equiv.Lexer
import Lnpl.Interp.Equiv.Instants
import Lnpl.Interp.Equiv.RowOrder

/-!
# The money codec

`_decode_money` writes an amount with as many decimals as its currency has, and `encode_money` reads
it back (`encodeMoney_decodeMoney`).  What it writes of an amount that was read is the same number
(`decodeMoney_encodeMoney`), so that an amount that is stored, summed up alone or chosen is not
changed.
-/

namespace Lnpl.Interp

open Front (Python isSpace)
open Lib (bind_eq_ok)

/-! ### Decimal numbers -/

/-- The number that a decimal is. -/
def Decimal.value : Decimal → Option ℚ
  | finite negative digits e =>
    some ((if negative then -1 else 1) * numberOf digits * 10 ^ e)
  | special => none

/-- The number that a text denotes. -/
def amountValue (py : Python) (text : String) : Option ℚ := (decimalOf py text).bind Decimal.value

/-- The text is a number with as many decimals, and digits in front of them. -/
def HasPlaces (places : ℕ) (text : List Char) : Prop :=
  ∃ sign whole fraction, (sign = [] ∨ sign = ['-']) ∧ whole ≠ [] ∧
    (∀ ch ∈ whole ++ fraction, ch.isDigit = true) ∧ fraction.length = places ∧
    text = sign ++ whole ++ if places = 0 then [] else '.' :: fraction

/-- The result is the amount, in the same currency and with as many decimals as that has. -/
def SameAmount (py : Python) (ops : JsonOps) (fields : List (String × Json)) (result : Json) :
    Prop :=
  ∃ text currency places amount, fields.lookup "amount" = some (.str text) ∧
    fields.lookup "currency" = some (.str currency) ∧
    exponent ops (.str currency) = .ok places ∧
    result = .obj [("amount", .str amount), ("currency", .str currency)] ∧
    HasPlaces places amount.toList ∧
    ∃ q, amountValue py text = some q ∧ amountValue py amount = some q

variable {py : Python} {ops : JsonOps}

/-! ### Digits -/

theorem numberOf_map_decimalValue {chars : List Char} (h : ∀ ch ∈ chars, ch.isDigit = true) :
    numberOf (chars.map (decimalValue py)) = Nat.ofDigitChars 10 chars 0 := by
  rw [← numberIn_asciiValue, numberIn,
    List.map_congr_left fun ch hch => decimalValue_of_isDigit (h ch hch)]

theorem numberOf_dropZeros (digits : List ℕ) :
    numberOf (digits.dropWhile (· = 0)) = numberOf digits := by
  induction digits with
  | nil => rfl
  | cons d digits ih =>
    rw [List.dropWhile_cons]
    split_ifs with hzero
    · rw [ih, numberOf_cons, of_decide_eq_true hzero, Nat.zero_mul, Nat.zero_add]
    · rfl

theorem numberOf_decimalDigits (digits : List ℕ) :
    numberOf (decimalDigits digits) = numberOf digits := by
  rw [← numberOf_dropZeros digits, decimalDigits]
  cases digits.dropWhile (· = 0) with
  | nil => rfl
  | cons d digits => rfl

variable {digits : List ℕ} {text sign : List Char} {currency field expression : String}
  {pair : Pair}

theorem length_decimalDigits_le (hne : digits ≠ []) :
    (decimalDigits digits).length ≤ digits.length := by
  have hdrop : (digits.dropWhile (· = 0)).length ≤ digits.length :=
    (List.dropWhile_sublist _).length_le
  rw [decimalDigits]
  cases h : digits.dropWhile (· = 0) with
  | nil => exact List.length_pos_of_ne_nil hne
  | cons d rest =>
    rw [h] at hdrop
    exact hdrop

theorem decimalDigits_replicate (k : ℕ) (digits : List ℕ) :
    decimalDigits (List.replicate k 0 ++ digits) = decimalDigits digits := by
  rw [decimalDigits, decimalDigits]
  induction k with
  | zero => rfl
  | succ k ih =>
    rw [List.replicate_succ, List.cons_append, List.dropWhile_cons_of_pos (by simp)]
    exact ih

/-! ### Texts of amounts -/

/-- The digits of an amount, zeros in front of them. -/
def paddedDigits (places minor : ℕ) : List Char :=
  List.replicate (places + 1 - (Nat.toDigits 10 minor).length) '0' ++ Nat.toDigits 10 minor

variable {places : ℕ} {ch : Char} {minor : ℤ} {fields : List (String × Json)}

theorem isDigit_of_mem_paddedDigits {minor : ℕ} (h : ch ∈ paddedDigits places minor) :
    ch.isDigit = true := by
  rcases List.mem_append.mp h with h | h
  · rw [List.eq_of_mem_replicate h]
    rfl
  · exact Front.isDigit_of_mem_toDigits h

theorem length_paddedDigits (places minor : ℕ) :
    places + 1 ≤ (paddedDigits places minor).length := by
  rw [paddedDigits, List.length_append, List.length_replicate]
  omega

/-- The digits in front of the point, and those behind it. -/
def wholeDigits (places minor : ℕ) : List Char :=
  (paddedDigits places minor).take ((paddedDigits places minor).length - places)

def fractionDigits (places minor : ℕ) : List Char :=
  (paddedDigits places minor).drop ((paddedDigits places minor).length - places)

theorem wholeDigits_append_fractionDigits (places minor : ℕ) :
    wholeDigits places minor ++ fractionDigits places minor = paddedDigits places minor :=
  List.take_append_drop _ _

theorem length_fractionDigits (places minor : ℕ) :
    (fractionDigits places minor).length = places := by
  have hlength := length_paddedDigits places minor
  rw [fractionDigits, List.length_drop]
  omega

theorem wholeDigits_ne_nil (places minor : ℕ) : wholeDigits places minor ≠ [] := by
  have hlength := length_paddedDigits places minor
  rw [wholeDigits, Ne, List.take_eq_nil_iff]
  rintro (h | h)
  · omega
  · rw [h] at hlength
    cases hlength

theorem isDigit_of_mem_parts {minor : ℕ}
    (h : ch ∈ wholeDigits places minor ++ fractionDigits places minor) : ch.isDigit = true := by
  rw [wholeDigits_append_fractionDigits] at h
  exact isDigit_of_mem_paddedDigits h

/-- `_decode_money` puts the point between them. -/
theorem decodedDigits_eq (places minor : ℕ) :
    decodedDigits places minor = wholeDigits places minor ++
      if places = 0 then [] else '.' :: fractionDigits places minor := by
  rw [decodedDigits]
  by_cases hplaces : places = 0
  · have hpositive : 0 < (Nat.toDigits 10 minor).length := Nat.length_toDigits_pos
    have hpadded : paddedDigits 0 minor = Nat.toDigits 10 minor := by
      rw [paddedDigits, Nat.sub_eq_zero_of_le (by omega), List.replicate_zero, List.nil_append]
    rw [if_pos hplaces, if_pos hplaces, List.append_nil, hplaces, wholeDigits, hpadded,
      Nat.sub_zero, List.take_length]
  · rw [if_neg hplaces, if_neg hplaces]
    rfl

/-! ### Reading an amount that was written -/

theorem isSpace_eq_false (h : ch.isDigit = true ∨ ch = '-' ∨ ch = '.') : isSpace ch = false := by
  rcases h with h | rfl | rfl
  · exact Front.isSpace_of_isDigit h
  · decide
  · decide

theorem stripSpace_eq_self (h : ∀ ch ∈ text, isSpace ch = false) : stripSpace text = text := by
  have hdrop : ∀ chars : List Char, (∀ ch ∈ chars, isSpace ch = false) →
      chars.dropWhile isSpace = chars := by
    intro chars hchars
    cases chars with
    | nil => rfl
    | cons ch chars =>
      rw [List.dropWhile_cons_of_neg]
      rw [hchars ch List.mem_cons_self]
      exact nofun
  rw [stripSpace, hdrop text h, hdrop text.reverse (fun ch hch => h ch (List.mem_reverse.mp hch)),
    List.reverse_reverse]

theorem filter_underscore (h : ∀ ch ∈ text, ch ≠ '_') : text.filter (· ≠ '_') = text := by
  rw [List.filter_eq_self]
  intro ch hch
  exact decide_eq_true (h ch hch)

theorem splitSign_append (hsign : sign = [] ∨ sign = ['-']) {body : List Char}
    (hbody : ∀ ch ∈ body.head?, ch.isDigit = true) :
    splitSign (sign ++ body) = (decide (sign = ['-']), body) := by
  rcases hsign with rfl | rfl
  · cases body with
    | nil => rfl
    | cons ch body =>
      have hdigit := hbody ch rfl
      rw [List.nil_append]
      unfold splitSign
      split
      · next h =>
        cases h
        cases hdigit
      · next h =>
        cases h
        cases hdigit
      · rfl
  · rfl

theorem endsRow_nil : EndsRow py [] := by
  intro ch hch
  cases hch

/-- **What `Decimal` reads** of a sign, digits and decimals. -/
theorem decimalOf_parts (hpy : DecimalDigits py) {whole fraction : List Char}
    (hsign : sign = [] ∨ sign = ['-']) (hwhole : whole ≠ [])
    (hdigits : ∀ ch ∈ whole ++ fraction, ch.isDigit = true) (hlength : fraction.length = places) :
    decimalOf py (String.ofList (sign ++ whole ++
        if places = 0 then [] else '.' :: fraction)) =
      some (.finite (decide (sign = ['-']))
        (decimalDigits ((whole ++ fraction).map (decimalValue py))) (-(places : ℤ))) := by
  have hchars : ∀ ch ∈ sign ++ whole ++ (if places = 0 then [] else '.' :: fraction),
      ch.isDigit = true ∨ ch = '-' ∨ ch = '.' := by
    intro ch hch
    rw [List.mem_append, List.mem_append] at hch
    rcases hch with (hch | hch) | hch
    · rcases hsign with rfl | rfl
      · cases hch
      · exact .inr (.inl (List.mem_singleton.mp hch))
    · exact .inl (hdigits ch (List.mem_append_left _ hch))
    · split_ifs at hch with hplaces
      · cases hch
      · rcases List.mem_cons.mp hch with rfl | hch
        · exact .inr (.inr rfl)
        · exact .inl (hdigits ch (List.mem_append_right _ hch))
  have hunderscore : ∀ ch ∈ sign ++ whole ++ (if places = 0 then [] else '.' :: fraction),
      ch ≠ '_' := by
    rintro ch hch rfl
    rcases hchars _ hch with h | h | h
    · cases h
    · exact absurd h (by decide)
    · exact absurd h (by decide)
  have hwholeDecimal : ∀ ch ∈ whole, IsDecimal py ch := fun ch hch =>
    isDecimal_of_isDigit (hdigits ch (List.mem_append_left _ hch))
  have hfractionDecimal : ∀ ch ∈ fraction, IsDecimal py ch := fun ch hch =>
    isDecimal_of_isDigit (hdigits ch (List.mem_append_right _ hch))
  have hhead : ∀ ch ∈ (whole ++ (if places = 0 then [] else '.' :: fraction)).head?,
      ch.isDigit = true := by
    intro ch hch
    cases whole with
    | nil => exact absurd rfl hwhole
    | cons d whole =>
      cases hch
      exact hdigits ch List.mem_cons_self
  have hpoint : EndsRow py ('.' :: fraction) := by
    intro ch hch
    cases hch
    exact hpy.ascii '.' (by decide) (by decide)
  have hnonempty : (whole.map (decimalValue py)).isEmpty = false := by
    rw [List.isEmpty_eq_false_iff, Ne, List.map_eq_nil_iff]
    exact hwhole
  rw [decimalOf, String.toList_ofList,
    stripSpace_eq_self (fun ch hch => isSpace_eq_false (hchars ch hch)),
    filter_underscore hunderscore, List.append_assoc, splitSign_append hsign hhead]
  dsimp only
  by_cases hplaces : places = 0
  · have hfraction : fraction = [] := List.eq_nil_of_length_eq_zero (hlength.trans hplaces)
    rw [if_pos hplaces, splitDigits_append hwholeDecimal endsRow_nil, hfraction, hplaces]
    simp only [hnonempty, Bool.false_and, if_neg Bool.false_ne_true, decimalExponent,
      Option.map_some, List.append_nil, List.length_nil]
    rfl
  · have hnil : splitDigits py fraction = (fraction.map (decimalValue py), []) := by
      have happend := splitDigits_append hfractionDecimal endsRow_nil
      rwa [List.append_nil] at happend
    rw [if_neg hplaces, splitDigits_append hwholeDecimal hpoint]
    simp only [hnil, hnonempty, Bool.false_and, if_neg Bool.false_ne_true, decimalExponent,
      Option.map_some, List.map_append, List.length_map, hlength, zero_sub]

/-- The digits that are read back. -/
def writtenDigits (py : Python) (minor : ℕ) : List ℕ :=
  decimalDigits ((Nat.toDigits 10 minor).map (decimalValue py))

theorem decimalDigits_paddedDigits (places minor : ℕ) :
    decimalDigits ((paddedDigits places minor).map (decimalValue py)) = writtenDigits py minor := by
  have hzero : decimalValue py '0' = 0 := decimalValue_of_isDigit rfl
  rw [paddedDigits, List.map_append, List.map_replicate, hzero, decimalDigits_replicate,
    writtenDigits]

theorem numberOf_writtenDigits (minor : ℕ) : numberOf (writtenDigits py minor) = minor := by
  rw [writtenDigits, numberOf_decimalDigits,
    numberOf_map_decimalValue fun ch hch => Front.isDigit_of_mem_toDigits hch,
    Nat.ofDigitChars_ten_toDigits]

theorem length_writtenDigits {minor : ℕ} (h : minor < 10 ^ 19) :
    (writtenDigits py minor).length ≤ 19 := by
  have hne : (Nat.toDigits 10 minor).map (decimalValue py) ≠ [] := by
    rw [Ne, List.map_eq_nil_iff]
    exact Nat.toDigits_ne_nil
  have hlength := length_decimalDigits_le hne
  have hdigits := (@Nat.length_toDigits_le_iff 10 minor 19 (by decide) (by decide)).mpr h
  rw [List.length_map] at hlength
  rw [writtenDigits]
  omega

/-- The text of an amount in minor units. -/
def decodedText (places : ℕ) (minor : ℤ) : List Char :=
  (if minor < 0 then ['-'] else []) ++ decodedDigits places minor.natAbs

theorem hasPlaces_decodedText (places : ℕ) (minor : ℤ) :
    HasPlaces places (decodedText places minor) := by
  refine ⟨if minor < 0 then ['-'] else [], wholeDigits places minor.natAbs,
    fractionDigits places minor.natAbs, ?_, wholeDigits_ne_nil _ _,
    fun ch hch => isDigit_of_mem_parts hch, length_fractionDigits _ _, ?_⟩
  · split_ifs
    · exact .inr rfl
    · exact .inl rfl
  · rw [decodedText, decodedDigits_eq, List.append_assoc]

theorem decimalOf_decodedText (hpy : DecimalDigits py) (places : ℕ) (minor : ℤ) :
    decimalOf py (String.ofList (decodedText places minor)) =
      some (.finite (decide (minor < 0)) (writtenDigits py minor.natAbs) (-(places : ℤ))) := by
  have hsign : (if minor < 0 then ['-'] else []) = [] ∨
      (if minor < 0 then ['-'] else []) = ['-'] := by
    split_ifs
    · exact .inr rfl
    · exact .inl rfl
  have hread := decimalOf_parts hpy hsign (wholeDigits_ne_nil places minor.natAbs)
    (fun ch hch => isDigit_of_mem_parts hch) (length_fractionDigits places minor.natAbs)
  rw [wholeDigits_append_fractionDigits, decimalDigits_paddedDigits, List.append_assoc,
    ← decodedDigits_eq] at hread
  rw [decodedText, hread]
  by_cases hneg : minor < 0
  · simp only [if_pos hneg, decide_eq_true hneg, decide_true]
  · simp only [if_neg hneg, decide_eq_false hneg]
    rfl

/-! ### The codec -/

theorem decodeMoney_of_exponent (h : exponent ops (.str currency) = .ok places) (minor : ℤ) :
    decodeMoney ops minor currency = .ok (.obj
      [("amount", .str (String.ofList (decodedText places minor))),
       ("currency", .str currency)]) := by
  rw [decodeMoney, h]
  rfl

/-- **What is decoded** is encoded to the same. -/
theorem encodeMoney_decodedText (hpy : DecimalDigits py)
    (h : exponent ops (.str currency) = .ok places) (hlow : int64Min ≤ minor)
    (hhigh : minor ≤ int64Max) :
    encodeMoney py ops (.str (String.ofList (decodedText places minor))) (.str currency) =
      .ok (minor, currency) := by
  have hbound : minor.natAbs < 10 ^ 19 := by
    rw [int64Min] at hlow
    rw [int64Max] at hhigh
    omega
  have hlength := @length_writtenDigits py minor.natAbs hbound
  have hshort : ¬Front.intMaxStrDigits < (writtenDigits py minor.natAbs).length := by
    rw [Front.intMaxStrDigits]
    omega
  have hplaces : ¬(-(-(places : ℤ))).toNat ≠ places := by
    rw [neg_neg, Int.toNat_natCast]
    exact fun hne => hne rfl
  have hexponent : (-(places : ℤ)).toNat = 0 := Int.toNat_of_nonpos (by omega)
  have hminor : (if decide (minor < 0) = true then -((minor.natAbs : ℤ) * 10 ^ 0)
      else (minor.natAbs : ℤ) * 10 ^ 0) = minor := by
    rw [pow_zero, mul_one]
    split_ifs with hneg
    · have := of_decide_eq_true hneg
      omega
    · have := of_decide_eq_false (Bool.eq_false_iff.mpr hneg)
      omega
  unfold encodeMoney
  rw [h]
  simp only [bind, Except.bind, decimalOf_decodedText hpy, if_neg hplaces, if_neg hshort,
    numberOf_writtenDigits, hexponent, hminor, if_pos (And.intro hlow hhigh)]

/-- Every active code has an exponent. -/
theorem exponent_active {currency : String} (h : currency ∈ activeCurrencyCodes) :
    ∃ places, exponent ops (.str currency) = .ok places := by
  have halpha : isAlpha3 currency = true := by
    have hall : activeCurrencyCodes.all isAlpha3 = true := by decide +kernel
    exact List.all_eq_true.mp hall currency h
  rw [exponent]
  simp only [halpha, Bool.not_true, if_neg Bool.false_ne_true]
  cases currencyExponent.lookup currency with
  | some places => exact ⟨places, rfl⟩
  | none =>
    have hcontains : activeCurrencyCodes.contains currency = true := List.contains_iff_mem.mpr h
    exact ⟨2, if_pos hcontains⟩

/-- What `encode_money` accepts is a decimal number with the places of its currency, in range. -/
theorem of_encodeMoney {text code : String} {currency : Json}
    (h : encodeMoney py ops (.str text) currency = .ok (minor, code)) :
    ∃ places negative digits e, currency = .str code ∧ exponent ops (.str code) = .ok places ∧
      decimalOf py text = some (.finite negative digits e) ∧ (-e).toNat = places ∧
      minor = (if negative then -((numberOf digits : ℤ) * 10 ^ e.toNat)
        else numberOf digits * 10 ^ e.toNat) ∧ int64Min ≤ minor ∧ minor ≤ int64Max := by
  cases currency with
  | str currency =>
    unfold encodeMoney at h
    obtain ⟨places, hplaces, hcode⟩ := bind_eq_ok.mp h
    dsimp only at hcode
    cases hdecimal : decimalOf py text with
    | none =>
      rw [hdecimal] at hcode
      cases hcode
    | some d =>
      rw [hdecimal] at hcode
      cases d with
      | special => cases hcode
      | finite negative digits e =>
        dsimp only at hcode
        generalize hminor : (if negative = true then -((numberOf digits : ℤ) * 10 ^ e.toNat)
          else (numberOf digits : ℤ) * 10 ^ e.toNat) = n at hcode
        split_ifs at hcode with hexact hlong hrange
        obtain ⟨rfl, rfl⟩ := Prod.mk.inj (Except.ok.inj hcode)
        exact ⟨places, negative, digits, e, rfl, hplaces, rfl, not_not.mp hexact, hminor.symm,
          hrange⟩
  | _ => cases h

/-- **What is encoded** is decoded to the same number. -/
theorem amountValue_decodedText (hpy : DecimalDigits py) {text : String} {negative : Bool} {e : ℤ}
    (hdecimal : decimalOf py text = some (.finite negative digits e))
    (hplaces : (-e).toNat = places)
    (hminor : minor = if negative then -((numberOf digits : ℤ) * 10 ^ e.toNat)
      else numberOf digits * 10 ^ e.toNat) :
    ∃ q, amountValue py text = some q ∧
      amountValue py (String.ofList (decodedText places minor)) = some q := by
  have hsigned :
      ((if decide (minor < 0) = true then -1 else 1 : ℚ)) * (minor.natAbs : ℕ) = minor := by
    by_cases hneg : minor < 0
    · have habs : (minor.natAbs : ℤ) = -minor := by omega
      rw [if_pos (decide_eq_true hneg), neg_one_mul, ← Int.cast_natCast, habs, Int.cast_neg,
        neg_neg]
    · have habs : (minor.natAbs : ℤ) = minor := by omega
      rw [if_neg (by simpa using hneg), one_mul, ← Int.cast_natCast, habs]
  have hvalue : ((if negative then -1 else 1 : ℚ)) * numberOf digits * 10 ^ e =
      minor * 10 ^ (-(places : ℤ)) := by
    have hscale : (10 : ℚ) ^ e = 10 ^ e.toNat * 10 ^ (-(places : ℤ)) := by
      rw [← zpow_natCast, ← zpow_add₀ (by norm_num)]
      congr 1
      omega
    rw [hminor, hscale]
    cases negative with
    | true =>
      rw [if_pos rfl, if_pos rfl]
      push_cast
      ring
    | false =>
      rw [if_neg Bool.false_ne_true, if_neg Bool.false_ne_true]
      push_cast
      ring
  refine ⟨_, by rw [amountValue, hdecimal]; rfl, ?_⟩
  rw [amountValue, decimalOf_decodedText hpy, Option.bind_some, Decimal.value,
    numberOf_writtenDigits, hsigned, hvalue]

/-! ### Amounts that are copied -/

/-- What is encoded of an amount of money is decoded to the same amount. -/
theorem sameAmount_decode (hpy : DecimalDigits py) {amount currency : Json}
    (hamount : fields.lookup "amount" = some amount)
    (hcurrency : fields.lookup "currency" = some currency)
    (h : encodeMoney py ops amount currency = .ok pair) :
    ∃ result, decodeMoney ops pair.1 pair.2 = .ok result ∧ SameAmount py ops fields result := by
  cases amount with
  | str text =>
    obtain ⟨places, negative, digits, e, rfl, hexponent, hdecimal, hplaces, hminor, -⟩ :=
      of_encodeMoney h
    have hvalue := amountValue_decodedText hpy hdecimal hplaces hminor
    refine ⟨_, decodeMoney_of_exponent hexponent pair.1, text, pair.2, places, _, hamount,
      hcurrency, hexponent, rfl, ?_, hvalue⟩
    rw [String.toList_ofList]
    exact hasPlaces_decodedText places pair.1
  | _ =>
    cases currency with
    | str code =>
      unfold encodeMoney at h
      obtain ⟨places, -, hcode⟩ := bind_eq_ok.mp h
      cases hcode
    | _ => cases h

theorem moneyPair_eq_ok {verb : String}
    (h : moneyPair py ops verb field expression (.obj fields) = .ok pair) :
    ∃ amount currency, fields.lookup "amount" = some amount ∧
      fields.lookup "currency" = some currency ∧ encodeMoney py ops amount currency = .ok pair := by
  rw [moneyPair] at h
  cases hamount : fields.lookup "amount" with
  | none =>
    rw [hamount] at h
    cases h
  | some amount =>
    rw [hamount] at h
    cases hcurrency : fields.lookup "currency" with
    | none =>
      rw [hcurrency] at h
      cases h
    | some currency =>
      rw [hcurrency] at h
      exact ⟨amount, currency, rfl, rfl, inAggregate_eq_ok.mp h⟩

/-- The sum of one amount is the amount. -/
theorem sameAmount_sum (hpy : DecimalDigits py) {aggFieldType : Option String} {result : Json}
    (h : evalSumAvg py ops .sum [.obj fields] field expression aggFieldType = .ok result) :
    SameAmount py ops fields result := by
  obtain ⟨pairs, currency, hpairs, hcodes, -, minor, hminor, hresult⟩ :=
    evalSumAvg_money_eq_ok.mp h
  rw [List.mapM_cons, List.mapM_nil] at hpairs
  obtain ⟨pair, hpair, hrest⟩ := bind_eq_ok.mp hpairs
  obtain rfl := Lib.pure_eq_ok.mp hrest
  obtain ⟨amount, code, hamount, hcode, hencode⟩ := moneyPair_eq_ok hpair
  obtain ⟨result', hresult', hsame⟩ := sameAmount_decode hpy hamount hcode hencode
  rw [if_neg nofun, List.map_singleton, List.sum_singleton, Except.ok.injEq] at hminor
  rw [← hminor, ← hcodes pair List.mem_cons_self, hresult', Except.ok.injEq] at hresult
  rw [← hresult]
  exact hsame

/-- An amount that is assigned is the amount. -/
theorem sameAmount_stored (hpy : DecimalDigits py) {name condition : String} {quantity : Quantity}
    (h : evalRaw py ops name condition (.obj fields) = .ok quantity) :
    ∃ result, storedValue ops quantity = .ok result ∧ SameAmount py ops fields result := by
  rw [evalRaw] at h
  cases hamount : fields.lookup "amount" with
  | none =>
    simp only [hamount] at h
    cases h
  | some amount =>
    cases hcurrency : fields.lookup "currency" with
    | none =>
      simp only [hamount, hcurrency] at h
      cases h
    | some currency =>
      simp only [hamount, hcurrency] at h
      cases hencode : encodeMoney py ops amount currency with
      | ok pair =>
        rw [hencode] at h
        cases h
        exact sameAmount_decode hpy hamount hcurrency hencode
      | error fault =>
        rw [hencode] at h
        cases fault with
        | money code message => cases h
        | value message => cases h

/-- **The money codec**: what is decoded is encoded to the same, what is encoded is decoded to the
same number with the decimals of its currency, and an amount that is assigned, summed up alone or
chosen is not changed. -/
theorem money_codec (py : Python) (ops : JsonOps) (hpy : DecimalDigits py) :
    (∀ currency ∈ activeCurrencyCodes, ∀ minor, int64Min ≤ minor → minor ≤ int64Max →
      ∃ amount, decodeMoney ops minor currency =
          .ok (.obj [("amount", .str amount), ("currency", .str currency)]) ∧
        encodeMoney py ops (.str amount) (.str currency) = .ok (minor, currency)) ∧
    (∀ text currency pair, encodeMoney py ops (.str text) currency = .ok pair →
      ∃ result, decodeMoney ops pair.1 pair.2 = .ok result ∧
        SameAmount py ops [("amount", .str text), ("currency", currency)] result) ∧
    (∀ fields name condition quantity,
      evalRaw py ops name condition (.obj fields) = .ok quantity →
        ∃ result, storedValue ops quantity = .ok result ∧ SameAmount py ops fields result) ∧
    (∀ fields field expression aggFieldType result,
      evalSumAvg py ops .sum [.obj fields] field expression aggFieldType = .ok result →
        SameAmount py ops fields result) ∧
    ∀ func values field expression best,
      evalMinmax py ops func values field expression = .ok best → best ∈ values := by
  refine ⟨?_, ?_, ?_, ?_, ?_⟩
  · intro currency hcurrency minor hlow hhigh
    obtain ⟨places, hplaces⟩ := @exponent_active ops currency hcurrency
    exact ⟨_, decodeMoney_of_exponent hplaces minor, encodeMoney_decodedText hpy hplaces hlow hhigh⟩
  · intro text currency pair h
    exact sameAmount_decode hpy rfl rfl h
  · intro fields name condition quantity h
    exact sameAmount_stored hpy h
  · intro fields field expression aggFieldType result h
    exact sameAmount_sum hpy h
  · intro func values field expression best h
    exact (evalMinmax_best h).mem

theorem money_codec_ascii :
    DecimalDigits .ascii ∧
      ∃ amount, decodeMoney ⟨Json.plainStr, Json.plainStr, Json.plainEq⟩ (-5) "USD" =
          .ok (.obj [("amount", .str amount), ("currency", .str "USD")]) ∧
        encodeMoney .ascii ⟨Json.plainStr, Json.plainStr, Json.plainEq⟩ (.str amount) (.str "USD") =
          .ok (-5, "USD") :=
  ⟨decimalDigits_ascii,
    (money_codec .ascii ⟨Json.plainStr, Json.plainStr, Json.plainEq⟩ decimalDigits_ascii).1 "USD"
      (by decide +kernel) (-5) (by decide) (by decide)⟩

end Lnpl.Interp
