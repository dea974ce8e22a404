import Mathlib.Tactic.IntervalCases
import Lnpl.Interp.Timestamps

/-!
# Correctness of `encodeInstant`

`instantOf` reads exactly the texts of the layouts that fit (`instantOf_eq_some_iff`), and a text
has one layout (`layout_unique`).  The checks of `encodeInstant` let every day up to 31 and every
offset through, so it is exact on the texts that are not misread (`encodes_exactly_iff`).
-/

namespace Lnpl.Interp

open Front (Python)
open Lib.Calendar (Date monthLength daysBeforeMonth daysBeforeYear daysBeforeYear_eq IsLeap)

/-! ### Rows of digits -/

private theorem foldl_numberOf (digits : List ℕ) (n : ℕ) :
    digits.foldl (fun n d => 10 * n + d) n = n * 10 ^ digits.length + numberOf digits := by
  induction digits generalizing n with
  | nil => simp [numberOf]
  | cons d digits ih =>
    rw [numberOf, List.foldl_cons, List.foldl_cons, ih, ih (10 * 0 + d), List.length_cons,
      pow_succ]
    ring

theorem numberOf_cons (d : ℕ) (digits : List ℕ) :
    numberOf (d :: digits) = d * 10 ^ digits.length + numberOf digits := by
  rw [numberOf, List.foldl_cons, foldl_numberOf, Nat.mul_zero, Nat.zero_add]

variable {digits : List ℕ} {ch : Char} {n month : ℕ} {chars text rest : List Char} {l : Layout}
  {zone : Zone} {digit : Char → Prop} {raw : String} {t u : Timestamp}

theorem numberOf_lt (h : ∀ d ∈ digits, d < 10) : numberOf digits < 10 ^ digits.length := by
  induction digits with
  | nil => exact Nat.one_pos
  | cons d digits ih =>
    have hd := h d List.mem_cons_self
    have hdigits := ih fun e he => h e (List.mem_cons_of_mem d he)
    rw [numberOf_cons, List.length_cons, pow_succ]
    nlinarith

theorem numberIn_cons (value : Char → ℕ) (ch : Char) (chars : List Char) :
    numberIn value (ch :: chars) = value ch * 10 ^ chars.length + numberIn value chars := by
  rw [numberIn, List.map_cons, numberOf_cons, List.length_map, numberIn]

variable {py : Python}

theorem decimal_eq (h : IsDecimal py ch) : py.decimal ch = some (decimalValue py ch) := by
  obtain ⟨d, hd⟩ := Option.isSome_iff_exists.mp h
  rw [decimalValue, hd]
  rfl

/-- A row of ASCII digits writes the number that Lean reads. -/
theorem numberIn_asciiValue (chars : List Char) :
    numberIn asciiValue chars = Nat.ofDigitChars 10 chars 0 := by
  have hfold : ∀ n : ℕ, (chars.map asciiValue).foldl (fun n d => 10 * n + d) n =
      Nat.ofDigitChars 10 chars n := by
    induction chars with
    | nil => exact fun n => rfl
    | cons ch chars ih =>
      intro n
      rw [List.map_cons, List.foldl_cons, ih, Nat.ofDigitChars_cons]
      rfl
  exact hfold 0

theorem fixedDigits_append (h : DigitRow (IsDecimal py) n chars) (rest : List Char) :
    fixedDigits py n (chars ++ rest) = some (numberIn (decimalValue py) chars, rest) := by
  obtain ⟨hlength, hdigits⟩ := h
  induction chars generalizing n with
  | nil =>
    subst hlength
    rfl
  | cons ch chars ih =>
    subst hlength
    have hrest := ih rfl fun e he => hdigits e (List.mem_cons_of_mem ch he)
    rw [List.cons_append, List.length_cons, fixedDigits, decimal_eq (hdigits ch List.mem_cons_self),
      hrest, numberIn_cons]
    rfl

theorem fixedDigits_eq_some {value : ℕ} (h : fixedDigits py n text = some (value, rest)) :
    ∃ chars, DigitRow (IsDecimal py) n chars ∧ text = chars ++ rest ∧
      value = numberIn (decimalValue py) chars := by
  induction n generalizing text value with
  | zero =>
    cases h
    exact ⟨[], ⟨rfl, nofun⟩, rfl, rfl⟩
  | succ n ih =>
    cases text with
    | nil => cases h
    | cons ch text =>
      simp only [fixedDigits, Option.bind_eq_bind, Option.bind_eq_some_iff] at h
      obtain ⟨d, hd, ⟨v, r⟩, hrest, heq⟩ := h
      cases heq
      obtain ⟨chars, ⟨hlength, hdigits⟩, rfl, rfl⟩ := ih hrest
      have hch : IsDecimal py ch := by rw [IsDecimal, hd]; rfl
      refine ⟨ch :: chars, ⟨by rw [List.length_cons, hlength], ?_⟩, rfl, ?_⟩
      · exact List.forall_mem_cons.mpr ⟨hch, hdigits⟩
      · rw [numberIn_cons, hlength, decimalValue, hd]
        rfl

theorem oneOf_cons (h : ch ∈ chars) (rest : List Char) :
    oneOf chars (ch :: rest) = some rest := if_pos (List.contains_iff_mem.mpr h)

theorem oneOf_eq_some (h : oneOf chars text = some rest) : ∃ ch ∈ chars, text = ch :: rest := by
  cases text with
  | nil => cases h
  | cons ch text =>
    rw [oneOf] at h
    split_ifs at h with hch
    cases h
    exact ⟨ch, List.contains_iff_mem.mp hch, rfl⟩

/-! ### Fractions -/

/-- The text does not go on with a digit. -/
def EndsRow (py : Python) (text : List Char) : Prop := ∀ ch ∈ text.head?, py.decimal ch = none

theorem splitDigits_append (h : ∀ ch ∈ chars, IsDecimal py ch) (hrest : EndsRow py rest) :
    splitDigits py (chars ++ rest) = (chars.map (decimalValue py), rest) := by
  induction chars with
  | nil =>
    cases rest with
    | nil => rfl
    | cons ch rest =>
      rw [List.nil_append, splitDigits, hrest ch rfl]
      rfl
  | cons ch chars ih =>
    rw [List.cons_append, splitDigits, decimal_eq (h ch List.mem_cons_self),
      ih fun e he => h e (List.mem_cons_of_mem ch he)]
    rfl

theorem splitDigits_eq (h : splitDigits py text = (digits, rest)) :
    ∃ chars, (∀ ch ∈ chars, IsDecimal py ch) ∧ text = chars ++ rest ∧
      digits = chars.map (decimalValue py) := by
  induction text generalizing digits with
  | nil =>
    cases h
    exact ⟨[], nofun, rfl, rfl⟩
  | cons ch text ih =>
    rw [splitDigits] at h
    cases hch : py.decimal ch with
    | none =>
      rw [hch] at h
      cases h
      exact ⟨[], nofun, rfl, rfl⟩
    | some d =>
      rw [hch] at h
      cases hsplit : splitDigits py text with
      | mk ds r =>
        rw [hsplit] at h
        cases h
        obtain ⟨chars, hdigits, rfl, rfl⟩ := ih hsplit
        refine ⟨ch :: chars, ?_, rfl, ?_⟩
        · intro e he
          rcases List.mem_cons.mp he with rfl | he
          · rw [IsDecimal, hch]
            rfl
          · exact hdigits e he
        · rw [List.map_cons, decimalValue, hch]
          rfl

theorem fractionOf_append (h : ∀ ch ∈ l.fraction, IsDecimal py ch) (hrest : EndsRow py rest)
    (hdot : '.' ∉ rest.head?) :
    fractionOf py (l.fractionText ++ rest) = (l.fraction.map (decimalValue py), rest) := by
  rw [Layout.fractionText]
  cases hfraction : l.fraction with
  | nil =>
    rw [if_pos rfl, List.nil_append, List.map_nil]
    unfold fractionOf
    split
    · exact absurd rfl hdot
    · rfl
  | cons ch chars =>
    rw [if_neg (List.cons_ne_nil ch chars), List.cons_append, fractionOf,
      splitDigits_append (hfraction ▸ h) hrest]
    rfl

theorem fractionOf_eq (h : fractionOf py text = (digits, rest)) :
    ∃ chars, (∀ ch ∈ chars, IsDecimal py ch) ∧ digits = chars.map (decimalValue py) ∧
      text = (if chars = [] then [] else '.' :: chars) ++ rest := by
  have hnone {chars : List Char} (htext : (([] : List ℕ), chars) = (digits, rest)) :
      ∃ ds, (∀ ch ∈ ds, IsDecimal py ch) ∧ digits = ds.map (decimalValue py) ∧
        chars = (if ds = [] then [] else '.' :: ds) ++ rest := by
    cases htext
    exact ⟨[], nofun, rfl, rfl⟩
  unfold fractionOf at h
  split at h
  · next text =>
    cases hsplit : splitDigits py text with
    | mk ds r =>
      rw [hsplit] at h
      cases ds with
      | nil => exact hnone h
      | cons d ds =>
        cases h
        obtain ⟨chars, hdigits, rfl, hchars⟩ := splitDigits_eq hsplit
        have hne : chars ≠ [] := by
          rintro rfl
          exact absurd hchars (List.cons_ne_nil d ds)
        exact ⟨chars, hdigits, hchars, by rw [if_neg hne, List.cons_append]⟩
  · exact hnone h

/-! ### Zones -/

/-- A newline, or none. -/
def newlineText (newline : Bool) : List Char := if newline then ['\n'] else []

theorem atEnd_newlineText (newline : Bool) : atEnd (newlineText newline) = true := by
  cases newline <;> rfl

theorem eq_newlineText_of_atEnd (h : atEnd text = true) :
    ∃ newline, text = newlineText newline := by
  rw [atEnd, Bool.or_eq_true, List.isEmpty_iff, decide_eq_true_eq] at h
  rcases h with rfl | rfl
  · exact ⟨false, rfl⟩
  · exact ⟨true, rfl⟩

/-- The offset of a zone designator, in minutes. -/
def Zone.minutesAhead (value : Char → ℕ) : Zone → ℤ
  | utc _ => 0
  | offset sign hours _ minutes =>
    if sign = '+' then (numberIn value hours : ℤ) * 60 + numberIn value minutes
    else -((numberIn value hours : ℤ) * 60 + numberIn value minutes)

/-- `:?`. -/
def skipColon : List Char → List Char
  | ':' :: text => text
  | text => text

theorem zoneOf_cons {sign : Char} (hupper : sign ≠ 'Z') (hlower : sign ≠ 'z')
    (text : List Char) :
    zoneOf py (sign :: text) = (oneOf ['+', '-'] [sign]).bind fun _ =>
      (fixedDigits py 2 text).bind fun hours =>
      (fixedDigits py 2 (skipColon hours.2)).bind fun minutes =>
      if atEnd minutes.2 then
        some (if sign = '+' then (hours.1 : ℤ) * 60 + minutes.1
          else -((hours.1 : ℤ) * 60 + minutes.1))
      else none := by
  rw [zoneOf]
  · rfl
  · exact hupper
  · exact hlower

variable {minutes rest' : List Char} {l' : Layout} {year : ℕ} {digit' : Char → Prop} {r : Reading}

theorem skipColon_append (hpy : DecimalDigits py) (colon : Bool)
    (h : DigitRow (IsDecimal py) 2 minutes) (rest : List Char) :
    skipColon ((if colon then [':'] else []) ++ minutes ++ rest) = minutes ++ rest := by
  cases colon with
  | true => rfl
  | false =>
    obtain ⟨hlength, hdigits⟩ := h
    cases minutes with
    | nil => cases hlength
    | cons ch minutes =>
      have hne : ch ≠ ':' := by
        rintro rfl
        have hcolon := hdigits ':' List.mem_cons_self
        rw [IsDecimal, hpy.ascii ':' (by decide) (by decide)] at hcolon
        cases hcolon
      unfold skipColon
      split
      · next h =>
        cases h
        exact absurd rfl hne
      · rfl

theorem eq_skipColon (text : List Char) :
    ∃ colon : Bool, text = (if colon then [':'] else []) ++ skipColon text := by
  unfold skipColon
  split
  · exact ⟨true, rfl⟩
  · exact ⟨false, rfl⟩

theorem zoneOf_append (hpy : DecimalDigits py) (h : zone.Fits (IsDecimal py)) (newline : Bool) :
    zoneOf py (zone.text ++ newlineText newline) =
      some (zone.minutesAhead (decimalValue py)) := by
  cases zone with
  | utc mark =>
    rcases h with rfl | rfl <;>
      rw [Zone.text, List.singleton_append, zoneOf, if_pos (atEnd_newlineText newline)] <;> rfl
  | offset sign hours colon minutes =>
    obtain ⟨hsign, hhours, hminutes⟩ := h
    have hupper : sign ≠ 'Z' := by rcases hsign with rfl | rfl <;> decide
    have hlower : sign ≠ 'z' := by rcases hsign with rfl | rfl <;> decide
    have honeOf : oneOf ['+', '-'] [sign] = some [] :=
      oneOf_cons (by rcases hsign with rfl | rfl <;> decide) []
    rw [Zone.text, List.cons_append, zoneOf_cons hupper hlower, honeOf, Option.bind_some,
      List.append_assoc, fixedDigits_append hhours, Option.bind_some,
      skipColon_append hpy colon hminutes, fixedDigits_append hminutes, Option.bind_some,
      if_pos (atEnd_newlineText newline)]
    rfl

theorem zoneOf_eq_some {offset : ℤ} (h : zoneOf py text = some offset) :
    ∃ zone newline, Zone.Fits (IsDecimal py) zone ∧ text = zone.text ++ newlineText newline ∧
      offset = zone.minutesAhead (decimalValue py) := by
  have hutc {mark : Char} {rest : List Char} (hmark : mark = 'Z' ∨ mark = 'z')
      (hrest : (if atEnd rest = true then some (0 : ℤ) else none) = some offset) :
      ∃ zone newline, Zone.Fits (IsDecimal py) zone ∧
        mark :: rest = zone.text ++ newlineText newline ∧
        offset = zone.minutesAhead (decimalValue py) := by
    split_ifs at hrest with hend
    cases hrest
    obtain ⟨newline, rfl⟩ := eq_newlineText_of_atEnd hend
    exact ⟨.utc mark, newline, hmark, rfl, rfl⟩
  cases text with
  | nil => cases h
  | cons sign text =>
    by_cases hupper : sign = 'Z'
    · subst hupper
      exact hutc (.inl rfl) h
    by_cases hlower : sign = 'z'
    · subst hlower
      exact hutc (.inr rfl) h
    rw [zoneOf_cons hupper hlower] at h
    obtain ⟨_, honeOf, h⟩ := Option.bind_eq_some_iff.mp h
    obtain ⟨⟨hours, rest⟩, hhours, h⟩ := Option.bind_eq_some_iff.mp h
    obtain ⟨⟨minutes, last⟩, hminutes, h⟩ := Option.bind_eq_some_iff.mp h
    dsimp only at hminutes h
    cases hend : atEnd last with
    | false =>
      rw [hend] at h
      cases h
    | true =>
    rw [hend, if_pos rfl] at h
    cases h
    obtain ⟨ch, hch, hsign⟩ := oneOf_eq_some honeOf
    cases hsign
    obtain ⟨hoursText, hhoursRow, rfl, rfl⟩ := fixedDigits_eq_some hhours
    obtain ⟨minutesText, hminutesRow, hskip, rfl⟩ := fixedDigits_eq_some hminutes
    obtain ⟨colon, hcolon⟩ := eq_skipColon rest
    obtain ⟨newline, rfl⟩ := eq_newlineText_of_atEnd hend
    refine ⟨.offset sign hoursText colon minutesText, newline,
      ⟨List.mem_pair.mp hch, hhoursRow, hminutesRow⟩, ?_, rfl⟩
    rw [hcolon, hskip, Zone.text, List.cons_append, List.append_assoc, List.append_assoc]

/-! ### Stamps -/

theorem stampOf_append (h : l.Fits (IsDecimal py)) (rest : List Char) :
    stampOf py (l.year ++ '-' :: (l.month ++ '-' :: (l.day ++ l.separator :: (l.hour ++
      ':' :: (l.minute ++ ':' :: (l.second ++ rest)))))) =
      some ((l.reading (decimalValue py)).stamp, rest) := by
  have hseparator : l.separator ∈ ['T', 't', ' '] := by
    rcases h.separator with hs | hs | hs <;> rw [hs] <;> decide
  rw [stampOf]
  simp only [fixedDigits_append h.year, fixedDigits_append h.month, fixedDigits_append h.day,
    fixedDigits_append h.hour, fixedDigits_append h.minute, fixedDigits_append h.second,
    oneOf_cons hseparator, oneOf_cons (List.mem_singleton_self '-'),
    oneOf_cons (List.mem_singleton_self ':'), Option.bind_eq_bind, Option.bind_some]
  rfl

theorem stampOf_eq_some {stamp : Stamp} (h : stampOf py text = some (stamp, rest)) (zone : Zone)
    (fraction : List Char) (newline : Bool) (hzone : zone.Fits (IsDecimal py))
    (hfraction : ∀ ch ∈ fraction, IsDecimal py ch) :
    ∃ l : Layout, l.Fits (IsDecimal py) ∧ (l.reading (decimalValue py)).stamp = stamp ∧
      l.zone = zone ∧ l.fraction = fraction ∧ l.newline = newline ∧
      text = l.year ++ '-' :: (l.month ++ '-' :: (l.day ++ l.separator :: (l.hour ++
        ':' :: (l.minute ++ ':' :: (l.second ++ rest))))) := by
  simp only [stampOf, Option.bind_eq_bind, Option.bind_eq_some_iff, Prod.exists] at h
  obtain ⟨year, text₁, hyear, text₂, hdash, month, text₃, hmonth, text₄, hdash', day, text₅, hday,
    text₆, hseparator, hour, text₇, hhour, text₈, hcolon, minute, text₉, hminute, text₁₀, hcolon',
    second, text₁₁, hsecond, heq⟩ := h
  cases heq
  obtain ⟨yearText, hyearRow, rfl, rfl⟩ := fixedDigits_eq_some hyear
  obtain ⟨dash, hmem, rfl⟩ := oneOf_eq_some hdash
  obtain ⟨monthText, hmonthRow, rfl, rfl⟩ := fixedDigits_eq_some hmonth
  obtain ⟨dash', hmem', rfl⟩ := oneOf_eq_some hdash'
  obtain ⟨dayText, hdayRow, rfl, rfl⟩ := fixedDigits_eq_some hday
  obtain ⟨separator, hseparatorMem, rfl⟩ := oneOf_eq_some hseparator
  obtain ⟨hourText, hhourRow, rfl, rfl⟩ := fixedDigits_eq_some hhour
  obtain ⟨colon, hcolonMem, rfl⟩ := oneOf_eq_some hcolon
  obtain ⟨minuteText, hminuteRow, rfl, rfl⟩ := fixedDigits_eq_some hminute
  obtain ⟨colon', hcolonMem', rfl⟩ := oneOf_eq_some hcolon'
  obtain ⟨secondText, hsecondRow, rfl, rfl⟩ := fixedDigits_eq_some hsecond
  cases List.mem_singleton.mp hmem
  cases List.mem_singleton.mp hmem'
  cases List.mem_singleton.mp hcolonMem
  cases List.mem_singleton.mp hcolonMem'
  have hmark : separator = 'T' ∨ separator = 't' ∨ separator = ' ' := by
    simpa using hseparatorMem
  exact ⟨⟨yearText, monthText, dayText, separator, hourText, minuteText, secondText, fraction,
    zone, newline⟩, ⟨hyearRow, hmonthRow, hdayRow, hmark, hhourRow, hminuteRow, hsecondRow,
    hfraction, hzone⟩, rfl, rfl, rfl, rfl, rfl⟩

/-! ### Layouts -/

theorem Zone.instant_offset (value : Char → ℕ) (l : Layout) :
    (l.reading value).instant.offset = l.zone.minutesAhead value := by
  rw [Reading.instant, Layout.reading]
  cases l.zone with
  | utc mark => simp [Zone.minutesAhead]
  | offset sign hours colon minutes => simp [Zone.minutesAhead]

theorem Zone.text_endsRow (hpy : DecimalDigits py) (h : zone.Fits digit) (rest : List Char) :
    EndsRow py (zone.text ++ rest) ∧ '.' ∉ (zone.text ++ rest).head? := by
  cases zone with
  | utc mark =>
    rcases h with rfl | rfl <;>
      exact ⟨fun ch hch => by cases hch; exact hpy.ascii _ (by decide) (by decide), nofun⟩
  | offset sign hours colon minutes =>
    rcases h.1 with rfl | rfl <;>
      exact ⟨fun ch hch => by cases hch; exact hpy.ascii _ (by decide) (by decide), nofun⟩

theorem instantOf_text (hpy : DecimalDigits py) (h : l.Fits (IsDecimal py)) :
    instantOf py (String.ofList l.text) = some (l.reading (decimalValue py)).instant := by
  have hends := Zone.text_endsRow hpy h.zone (newlineText l.newline)
  have hstamp := stampOf_append h (l.fractionText ++ (l.zone.text ++ newlineText l.newline))
  have hfraction := fractionOf_append h.fraction hends.1 hends.2
  have hzone := zoneOf_append hpy h.zone l.newline
  have htext : (String.ofList l.text).toList = l.year ++ '-' :: (l.month ++ '-' ::
      (l.day ++ l.separator :: (l.hour ++ ':' :: (l.minute ++ ':' :: (l.second ++
        (l.fractionText ++ (l.zone.text ++ newlineText l.newline))))))) :=
    String.toList_ofList
  rw [instantOf, htext]
  simp only [hstamp, hfraction, hzone, Option.bind_eq_bind, Option.bind_some]
  rw [← Zone.instant_offset]
  rfl

theorem instantOf_eq_some {t : Instant} (h : instantOf py raw = some t) :
    ∃ l : Layout, l.text = raw.toList ∧ l.Fits (IsDecimal py) ∧
      t = (l.reading (decimalValue py)).instant := by
  simp only [instantOf, Option.bind_eq_bind, Option.bind_eq_some_iff, Prod.exists] at h
  obtain ⟨stamp, text, hstamp, h⟩ := h
  cases hfraction : fractionOf py text with | mk digits rest
  rw [hfraction] at h
  obtain ⟨offset, hzone, heq⟩ := h
  dsimp only at hzone
  cases heq
  obtain ⟨zone, newline, hzoneFits, htext, hoffset⟩ := zoneOf_eq_some hzone
  obtain ⟨fraction, hdigits, hvalues, hsplit⟩ := fractionOf_eq hfraction
  obtain ⟨l, hl, hlstamp, hlzone, hlfraction, hlnewline, hraw⟩ :=
    stampOf_eq_some hstamp zone fraction newline hzoneFits hdigits
  refine ⟨l, ?_, hl, ?_⟩
  · rw [hraw, hsplit, htext, Layout.text, Layout.fractionText, hlzone, hlfraction, hlnewline]
    rfl
  · rw [hvalues, hoffset, ← hlzone, ← Zone.instant_offset, ← hlfraction, ← hlstamp]
    rfl

/-! ### One layout -/

theorem row_unique {chars' : List Char} (h : DigitRow digit n chars) (h' : DigitRow digit n chars')
    (heq : chars ++ rest = chars' ++ rest') :
    chars = chars' ∧ rest = rest' :=
  List.append_inj heq (h.1.trans h'.1.symm)

theorem newlineText_injective : Function.Injective newlineText := by
  intro a b h
  cases a <;> cases b <;> first | rfl | cases h

theorem colon_unique (hcolon : ¬ digit ':') {colon colon' : Bool} {minutes' : List Char}
    (h : DigitRow digit 2 minutes) (h' : DigitRow digit 2 minutes')
    (heq : (if colon then [':'] else []) ++ (minutes ++ rest) =
      (if colon' then [':'] else []) ++ (minutes' ++ rest')) :
    colon = colon' ∧ minutes = minutes' ∧ rest = rest' := by
  have hno {minutes rest rest' : List Char} (h : DigitRow digit 2 minutes)
      (heq : minutes ++ rest = ':' :: rest') : False := by
    obtain ⟨hlength, hdigits⟩ := h
    cases minutes with
    | nil => cases hlength
    | cons ch minutes =>
      cases (List.cons.inj heq).1
      exact hcolon (hdigits ':' List.mem_cons_self)
  cases colon with
  | true =>
    cases colon' with
    | true => exact ⟨rfl, row_unique h h' (List.cons.inj heq).2⟩
    | false => exact (hno h' heq.symm).elim
  | false =>
    cases colon' with
    | true => exact (hno h heq).elim
    | false => exact ⟨rfl, row_unique h h' heq⟩

theorem zone_unique (hcolon : ¬ digit ':') {zone' : Zone} {newline newline' : Bool}
    (h : zone.Fits digit) (h' : zone'.Fits digit)
    (heq : zone.text ++ newlineText newline = zone'.text ++ newlineText newline') :
    zone = zone' ∧ newline = newline' := by
  cases zone with
  | utc mark =>
    cases zone' with
    | utc mark' =>
      obtain ⟨hmark, hnewline⟩ := List.cons.inj heq
      exact ⟨congrArg Zone.utc hmark, newlineText_injective hnewline⟩
    | offset sign hours colon minutes =>
      have hmark := (List.cons.inj heq).1
      rcases h with rfl | rfl <;> rcases h'.1 with rfl | rfl <;> cases hmark
  | offset sign hours colon minutes =>
    cases zone' with
    | utc mark =>
      have hmark := (List.cons.inj heq).1
      rcases h' with rfl | rfl <;> rcases h.1 with rfl | rfl <;> cases hmark
    | offset sign' hours' colon' minutes' =>
      obtain ⟨hsign, heq⟩ := List.cons.inj heq
      simp only [List.append_eq, List.append_assoc] at heq
      obtain ⟨hhours, heq⟩ := row_unique h.2.1 h'.2.1 heq
      obtain ⟨hcolons, hminutes, hnewline⟩ := colon_unique hcolon h.2.2 h'.2.2 heq
      rw [hsign, hhours, hcolons, hminutes, newlineText_injective hnewline]
      exact ⟨rfl, rfl⟩

theorem fractionText_injective (h : l.fractionText = l'.fractionText) :
    l.fraction = l'.fraction := by
  unfold Layout.fractionText at h
  split_ifs at h with hnil hnil' hnil'
  · rw [hnil, hnil']
  · exact (List.cons.inj h).2

/-- **A text has one layout.** -/
theorem layout_unique (hpy : DecimalDigits py) (h : l.Fits (IsDecimal py))
    (h' : l'.Fits (IsDecimal py)) (heq : l.text = l'.text) : l = l' := by
  have hcolon : ¬ IsDecimal py ':' := by
    rw [IsDecimal, hpy.ascii ':' (by decide) (by decide)]
    exact nofun
  obtain ⟨hyear, heq⟩ := row_unique h.year h'.year heq
  obtain ⟨hmonth, heq⟩ := row_unique h.month h'.month (List.cons.inj heq).2
  obtain ⟨hday, heq⟩ := row_unique h.day h'.day (List.cons.inj heq).2
  obtain ⟨hseparator, heq⟩ := List.cons.inj heq
  obtain ⟨hhour, heq⟩ := row_unique h.hour h'.hour heq
  obtain ⟨hminute, heq⟩ := row_unique h.minute h'.minute (List.cons.inj heq).2
  obtain ⟨hsecond, heq⟩ := row_unique h.second h'.second (List.cons.inj heq).2
  -- what is behind the seconds parts where the reader of a fraction parts it
  have hends := Zone.text_endsRow hpy h.zone (newlineText l.newline)
  have hends' := Zone.text_endsRow hpy h'.zone (newlineText l'.newline)
  have hread := fractionOf_append h.fraction hends.1 hends.2
  have hread' := fractionOf_append h'.fraction hends'.1 hends'.2
  have hsplit := hread.symm.trans ((congrArg (fractionOf py) heq).trans hread')
  have hrest := (Prod.mk.inj hsplit).2
  obtain ⟨hzone, hnewline⟩ := zone_unique hcolon h.zone h'.zone hrest
  have hfraction : l.fraction = l'.fraction := by
    apply fractionText_injective
    have hcut : l.fractionText ++ (l.zone.text ++ newlineText l.newline) =
        l'.fractionText ++ (l.zone.text ++ newlineText l.newline) :=
      heq.trans (congrArg (l'.fractionText ++ ·) hrest.symm)
    exact List.append_cancel_right hcut
  cases l
  cases l'
  simp_all only

/-! ### Dates -/

theorem isLeap_iff (year : ℕ) : isLeap year = true ↔ IsLeap year := by
  simp only [isLeap, IsLeap, Bool.and_eq_true, Bool.or_eq_true, decide_eq_true_eq]
  omega

theorem sum_take_monthDays (year : ℕ) (hpos : 1 ≤ month) (hle : month ≤ 12) :
    ((monthDays year).take (month - 1)).sum = daysBeforeMonth year month := by
  have hleap : (if isLeap year then 29 else 28) = monthLength year 2 := by
    simp only [isLeap_iff]
    rfl
  have hstart : daysBeforeMonth year 1 = 0 := rfl
  have hstep {m : ℕ} (h : 1 ≤ m) := Lib.Calendar.daysBeforeMonth_succ year h
  rw [monthDays, hleap]
  induction month, hpos using Nat.le_induction with
  | base => exact hstart.symm
  | succ month hmonth ih =>
    have hlt : month ≤ 11 := by omega
    rw [hstep hmonth, ← ih (by omega)]
    interval_cases month <;> simp [monthLength] <;> rfl

/-- `toordinal` counts the days of the calendar. -/
theorem ordinalOfMonth_eq (hyear : 1 ≤ year) (hpos : 1 ≤ month) (hle : month ≤ 12) :
    ordinalOfMonth year month = daysBeforeYear year + daysBeforeMonth year month + 1 := by
  obtain ⟨before, rfl⟩ := Nat.exists_eq_add_of_le' hyear
  rw [ordinalOfMonth, sum_take_monthDays _ hpos hle, daysBeforeYear_eq, Nat.add_sub_cancel]

/-! ### Fractions of a second -/

/-- The first three digits are the milliseconds, cut off. -/
theorem millisOf_eq (h : ∀ d ∈ digits, d < 10) :
    millisOf digits = numberOf digits * 1000 / 10 ^ digits.length := by
  match digits with
  | [] => rfl
  | [a] => simp [millisOf, numberOf]; omega
  | [a, b] => simp [millisOf, numberOf]; omega
  | a :: b :: d :: rest =>
    have hrest : numberOf rest < 10 ^ rest.length :=
      numberOf_lt fun e he => h e (by simp [he])
    have hhead : millisOf (a :: b :: d :: rest) = a * 100 + b * 10 + d := by
      simp [millisOf, numberOf]
      omega
    have hnumber : numberOf (a :: b :: d :: rest) =
        (a * 100 + b * 10 + d) * 10 ^ rest.length + numberOf rest := by
      simp only [numberOf_cons, List.length_cons, pow_succ]
      ring
    have hpow : 10 ^ (a :: b :: d :: rest).length = 10 ^ rest.length * 1000 := by
      simp only [List.length_cons, pow_succ]
      ring
    rw [hhead, hnumber, hpow, Nat.mul_div_mul_right _ _ (by decide),
      Nat.add_comm _ (numberOf rest), Nat.add_mul_div_right _ _ (by positivity),
      Nat.div_eq_of_lt hrest, Nat.zero_add]

theorem numberIn_lt (hpy : DecimalDigits py) (h : DigitRow (IsDecimal py) n chars) :
    numberIn (decimalValue py) chars < 10 ^ n := by
  have hlt : ∀ d ∈ chars.map (decimalValue py), d < 10 := by
    intro d hd
    obtain ⟨ch, hch, rfl⟩ := List.mem_map.mp hd
    exact hpy.lt_ten ch _ (decimal_eq (h.2 ch hch))
  have hbound := numberOf_lt hlt
  rw [List.length_map, h.1] at hbound
  exact hbound

/-! ### Values -/

/-- The value that `encodeInstant` computes. -/
def Reading.total (r : Reading) : ℤ :=
  (((ordinalOfMonth r.stamp.year r.stamp.month : ℤ) - epochOrdinal + r.stamp.day - 1) * 86400 +
    r.stamp.hour * 3600 + r.stamp.minute * 60 + r.stamp.second) * 1000 + millisOf r.fraction -
    r.instant.offset * 60000

theorem fraction_lt_ten (hpy : DecimalDigits py) (h : l.Fits (IsDecimal py)) :
    ∀ d ∈ (l.reading (decimalValue py)).fraction, d < 10 := by
  intro d hd
  obtain ⟨ch, hch, rfl⟩ := List.mem_map.mp hd
  exact hpy.lt_ten ch _ (decimal_eq (h.fraction ch hch))

theorem millisOf_lt (h : ∀ d ∈ digits, d < 10) : millisOf digits < 1000 := by
  rw [millisOf_eq h, Nat.div_lt_iff_lt_mul (by positivity), Nat.mul_comm 1000]
  exact Nat.mul_lt_mul_of_pos_right (numberOf_lt h) (by decide)

theorem ordinalOfMonth_bounds (hyear : 1 ≤ year) (hpos : 1 ≤ month) (hle : month ≤ 12) :
    ordinalOfMonth year month ≤ year * 366 + 1 := by
  have hmonths := Lib.Calendar.daysBeforeMonth_mono year (Nat.le_succ_of_le hle)
  rw [Nat.succ_eq_add_one, Lib.Calendar.daysBeforeMonth_thirteen] at hmonths
  have hyears := Lib.Calendar.daysBeforeYear_succ hyear
  rw [daysBeforeYear_eq] at hyears
  rw [ordinalOfMonth_eq hyear hpos hle]
  omega

/-- The offset of a text is within 99 hours and 99 minutes. -/
theorem offset_bounds (hpy : DecimalDigits py) (h : zone.Fits (IsDecimal py)) :
    -6039 ≤ zone.minutesAhead (decimalValue py) ∧ zone.minutesAhead (decimalValue py) ≤ 6039 := by
  cases zone with
  | utc mark => exact ⟨by simp [Zone.minutesAhead], by simp [Zone.minutesAhead]⟩
  | offset sign hours colon minutes =>
    have hhours := numberIn_lt hpy h.2.1
    have hminutes := numberIn_lt hpy h.2.2
    rw [Zone.minutesAhead]
    split_ifs <;> omega

/-- A text that passes the checks is far from the ends of the domain. -/
theorem total_bounds (hpy : DecimalDigits py) (h : l.Fits (IsDecimal py))
    (hchecked : (l.reading (decimalValue py)).Checked) :
    int64Min ≤ (l.reading (decimalValue py)).total ∧
      (l.reading (decimalValue py)).total ≤ int64Max := by
  have hyear : (l.reading (decimalValue py)).stamp.year < 10 ^ 4 := numberIn_lt hpy h.year
  have hmillis := millisOf_lt (fraction_lt_ten hpy h)
  have hordinal := ordinalOfMonth_bounds hchecked.year hchecked.month_pos hchecked.month_le
  have hoffset := offset_bounds hpy h.zone
  rw [← Zone.instant_offset] at hoffset
  have hday := hchecked.day_le
  have hhour := hchecked.hour
  have hminute := hchecked.minute
  have hsecond := hchecked.second
  rw [Reading.total, int64Min, int64Max, epochOrdinal]
  omega

/-- A text of the shape of a timestamp has a value iff its numbers pass the checks. -/
theorem encodeInstant_text (hpy : DecimalDigits py) (h : l.Fits (IsDecimal py)) (place : String)
    (value : ℤ) :
    encodeInstant py (String.ofList l.text) place = .ok value ↔
      (l.reading (decimalValue py)).Checked ∧ (l.reading (decimalValue py)).total = value := by
  have hstamp : (l.reading (decimalValue py)).instant.stamp =
      (l.reading (decimalValue py)).stamp := rfl
  rw [encodeInstant, instantOf_text hpy h]
  simp only [hstamp]
  constructor
  · intro hok
    cases htime : timegm (l.reading (decimalValue py)).stamp.year
      (l.reading (decimalValue py)).stamp.month (l.reading (decimalValue py)).stamp.day with
    | none =>
      rw [htime] at hok
      cases hok
    | some seconds =>
      rw [htime] at hok
      dsimp only at hok
      rw [timegm] at htime
      split_ifs at htime with hdate
      cases htime
      split_ifs at hok with hrange hdomain
      cases hok
      exact ⟨⟨hdate.1, hdate.2.1, hdate.2.2, hrange.1, hrange.2.1, hrange.2.2.1, hrange.2.2.2.1,
        hrange.2.2.2.2⟩, rfl⟩
  · rintro ⟨hchecked, rfl⟩
    have hdate : 1 ≤ (l.reading (decimalValue py)).stamp.year ∧
        1 ≤ (l.reading (decimalValue py)).stamp.month ∧
        (l.reading (decimalValue py)).stamp.month ≤ 12 :=
      ⟨hchecked.year, hchecked.month_pos, hchecked.month_le⟩
    rw [timegm, if_pos hdate]
    dsimp only
    rw [if_pos ⟨hchecked.day_pos, hchecked.day_le, hchecked.hour, hchecked.minute,
      hchecked.second⟩]
    exact if_pos (total_bounds hpy h hchecked)

/-! ### Timestamps -/

theorem decimalValue_of_isDigit (h : ch.isDigit = true) : decimalValue py ch = asciiValue ch := by
  rw [decimalValue, py.decimal_ascii ch h]
  rfl

theorem isDecimal_of_isDigit (h : ch.isDigit = true) : IsDecimal py ch := by
  rw [IsDecimal, py.decimal_ascii ch h]
  rfl

theorem DigitRow.mono (hdigit : ∀ ch, digit ch → digit' ch) (h : DigitRow digit n chars) :
    DigitRow digit' n chars :=
  ⟨h.1, fun ch hch => hdigit ch (h.2 ch hch)⟩

theorem Layout.Fits.mono (hdigit : ∀ ch, digit ch → digit' ch) (h : l.Fits digit) :
    l.Fits digit' where
  year := h.year.mono hdigit
  month := h.month.mono hdigit
  day := h.day.mono hdigit
  separator := h.separator
  hour := h.hour.mono hdigit
  minute := h.minute.mono hdigit
  second := h.second.mono hdigit
  fraction ch hch := hdigit ch (h.fraction ch hch)
  zone := by
    have hzone := h.zone
    cases hz : l.zone with
    | utc mark =>
      rw [hz] at hzone
      exact hzone
    | offset sign hours colon minutes =>
      rw [hz] at hzone
      exact ⟨hzone.1, hzone.2.1.mono hdigit, hzone.2.2.mono hdigit⟩

theorem numberIn_congr (h : DigitRow (fun ch => ch.isDigit = true) n chars) :
    numberIn (decimalValue py) chars = numberIn asciiValue chars := by
  rw [numberIn, numberIn, List.map_congr_left fun ch hch => decimalValue_of_isDigit (h.2 ch hch)]

/-- A layout in ASCII reads the same wherever its digits are read. -/
theorem reading_ascii {l : Layout} (h : l.Fits fun ch => ch.isDigit = true) :
    l.reading (decimalValue py) = l.reading asciiValue := by
  have hfraction : l.fraction.map (decimalValue py) = l.fraction.map asciiValue :=
    List.map_congr_left fun ch hch => decimalValue_of_isDigit (h.fraction ch hch)
  have hzone := h.zone
  simp only [Layout.reading, numberIn_congr h.year, numberIn_congr h.month, numberIn_congr h.day,
    numberIn_congr h.hour, numberIn_congr h.minute, numberIn_congr h.second, hfraction]
  cases hz : l.zone with
  | utc mark => rfl
  | offset sign hours colon minutes =>
    rw [hz] at hzone
    simp only [numberIn_congr hzone.2.1, numberIn_congr hzone.2.2]

theorem fraction_cast (n len : ℕ) : (1000 * ((n : ℚ) / 10 ^ len)) = ((n * 1000 : ℕ) : ℚ) /
    ((10 ^ len : ℕ) : ℚ) := by
  push_cast
  ring

theorem Timestamp.fraction_lt_ten (t : Timestamp) : ∀ d ∈ t.reading.fraction, d < 10 := by
  intro d hd
  obtain ⟨ch, hch, rfl⟩ := List.mem_map.mp hd
  have hdigit := Char.isDigit_iff_toNat.mp (t.fits.fraction ch hch)
  have hzero : '0'.toNat = 48 := rfl
  have hnine : '9'.toNat = 57 := rfl
  rw [asciiValue]
  omega

/-- **The exact value.** The integer that the code computes is the floor of the exact number of
milliseconds. -/
theorem Reading.floor_seconds (hreal : r.Real) (hdigits : ∀ d ∈ r.fraction, d < 10) :
    ⌊1000 * r.seconds⌋ = r.total := by
  have hoffset : r.instant.offset * 60000 = r.offset * 1000 := by
    rw [Reading.instant, Reading.offset]
    dsimp only
    split_ifs <;> ring
  have hordinal : ((daysBeforeYear r.stamp.year + daysBeforeMonth r.stamp.year r.stamp.month +
      r.stamp.day : ℕ) : ℤ) - Date.epoch.ordinal =
      (ordinalOfMonth r.stamp.year r.stamp.month : ℤ) - epochOrdinal + r.stamp.day - 1 := by
    rw [ordinalOfMonth_eq hreal.year hreal.month_pos hreal.month_le, Date.ordinal_epoch,
      epochOrdinal]
    push_cast
    ring
  have hseconds : 1000 * r.seconds = (((((daysBeforeYear r.stamp.year +
      daysBeforeMonth r.stamp.year r.stamp.month + r.stamp.day : ℕ) : ℤ) - Date.epoch.ordinal) *
      86400 + r.stamp.hour * 3600 + r.stamp.minute * 60 + r.stamp.second - r.offset) * 1000 : ℤ) +
      ((numberOf r.fraction * 1000 : ℕ) : ℚ) / ((10 ^ r.fraction.length : ℕ) : ℚ) := by
    rw [← fraction_cast, Reading.seconds]
    push_cast
    ring
  rw [hseconds, Int.floor_intCast_add, Rat.floor_natCast_div_natCast, Reading.total, hoffset,
    hordinal, millisOf_eq hdigits]
  push_cast
  ring

theorem Timestamp.seconds_eq (t : Timestamp) : t.seconds = t.reading.seconds := rfl

theorem Timestamp.millis_eq (t : Timestamp) : t.millis = t.reading.total := by
  rw [Timestamp.millis, t.seconds_eq]
  exact Reading.floor_seconds t.real t.fraction_lt_ten

theorem Reading.Real.checked (hreal : r.Real) : r.Checked := by
  have hday : monthLength r.stamp.year r.stamp.month ≤ 31 := by
    unfold monthLength
    split <;> (try split) <;> decide
  exact ⟨hreal.year, hreal.month_pos, hreal.month_le, hreal.day_pos, hreal.day_le.trans hday,
    hreal.hour, hreal.minute, hreal.second⟩

theorem Timestamp.checked (t : Timestamp) : t.reading.Checked := Reading.Real.checked t.real

/-- Every timestamp has its value. -/
theorem Timestamp.encode (hpy : DecimalDigits py) (t : Timestamp) (place : String) :
    encodeInstant py t.text place = .ok t.millis := by
  have hreading : t.layout.reading (decimalValue py) = t.reading := reading_ascii t.fits
  apply (encodeInstant_text hpy (t.fits.mono fun _ => isDecimal_of_isDigit) place t.millis).mpr
  rw [hreading]
  exact ⟨t.checked, t.millis_eq.symm⟩

/-! ### The order of instants -/

/-- The whole seconds of the local clock, from the first day on. -/
def Timestamp.wholeSeconds (t : Timestamp) : ℕ :=
  t.date.ordinal * 86400 + t.reading.stamp.hour * 3600 + t.reading.stamp.minute * 60 +
    t.reading.stamp.second

theorem Timestamp.fraction_bounds (t : Timestamp) : 0 ≤ t.fraction ∧ t.fraction < 1 := by
  have hlt : ((numberOf t.reading.fraction : ℕ) : ℚ) < 10 ^ t.reading.fraction.length := by
    exact_mod_cast numberOf_lt t.fraction_lt_ten
  rw [Timestamp.fraction]
  exact ⟨by positivity, (div_lt_one (by positivity)).mpr hlt⟩

theorem Timestamp.wholeSeconds_of_clock_le (ht : t.reading.stamp.second ≤ 59)
    (h : t.clock ≤ u.clock) :
    t.wholeSeconds < u.wholeSeconds ∨
      t.wholeSeconds = u.wholeSeconds ∧ t.fraction ≤ u.fraction := by
  have hreal : t.reading.Real := t.real
  have hhour := hreal.hour
  have hminute := hreal.minute
  rw [Timestamp.wholeSeconds, Timestamp.wholeSeconds]
  simp only [Timestamp.clock, Prod.Lex.toLex_le_toLex] at h
  rcases h with hdate | ⟨hdate, hclock⟩
  · have hordinal := Date.ordinal_lt_iff.mpr hdate
    omega
  · have hordinal := congrArg Date.ordinal (Date.eq_of_fields_eq hdate)
    rcases hclock with hh | ⟨hh, hm | ⟨hm, hs | ⟨hs, hfraction⟩⟩⟩
    · omega
    · omega
    · omega
    · right
      exact ⟨by omega, hfraction⟩

/-- **Local clocks.** At one offset the instants stand as the local dates and clocks do, but for a
second 60. -/
theorem Timestamp.seconds_le_of_clock_le (hoffset : t.reading.offset = u.reading.offset)
    (ht : t.reading.stamp.second ≤ 59) (h : t.clock ≤ u.clock) : t.seconds ≤ u.seconds := by
  have hseconds (v : Timestamp) : v.seconds = v.wholeSeconds -
      (Date.epoch.ordinal : ℚ) * 86400 + v.fraction - v.reading.offset := by
    rw [Timestamp.seconds, Timestamp.wholeSeconds]
    push_cast
    ring
  have hbounds := t.fraction_bounds
  have hbounds' := u.fraction_bounds
  rw [hseconds, hseconds, hoffset]
  rcases Timestamp.wholeSeconds_of_clock_le ht h with hlt | ⟨heq, hfraction⟩
  · have hcast : (t.wholeSeconds : ℚ) + 1 ≤ u.wholeSeconds := by exact_mod_cast hlt
    linarith
  · rw [heq]
    linarith

theorem Timestamp.millis_le (h : t.seconds ≤ u.seconds) : t.millis ≤ u.millis :=
  Int.floor_le_floor (by linarith)

/-! ### The texts with a value -/

theorem not_exact_of_misread (hpy : DecimalDigits py) (h : Misread py raw) : ¬ Exact py raw := by
  obtain ⟨l, hraw, hfits, hchecked, hkind⟩ := h
  intro hexact
  have htext : String.ofList l.text = raw := by rw [hraw, String.ofList_toList]
  have hok := (encodeInstant_text hpy hfits "" _).mpr ⟨hchecked, rfl⟩
  rw [htext] at hok
  obtain ⟨t, ht, -⟩ := (hexact "" _).mp hok
  -- a text has one layout, so the timestamp's is this one
  have hlayout : t.layout.text = l.text := by
    rw [hraw, ← ht, Timestamp.text, String.toList_ofList]
  have heq := layout_unique hpy (t.fits.mono fun _ => isDecimal_of_isDigit) hfits hlayout
  have hreading : t.reading = l.reading (decimalValue py) := by
    rw [← heq]
    exact (reading_ascii t.fits).symm
  have hreal : (l.reading (decimalValue py)).Real := hreading ▸ t.real
  rcases hkind with hday | hhours | hminutes | hascii | hnewline
  · exact absurd hreal.day_le (Nat.not_le.mpr hday)
  · exact absurd hreal.hours (Nat.not_le.mpr hhours)
  · exact absurd hreal.minutes (Nat.not_le.mpr hminutes)
  · exact hascii (heq ▸ t.fits)
  · have hends := t.ends
    rw [heq, hnewline] at hends
    cases hends

theorem exact_of_not_misread (hpy : DecimalDigits py) (h : ¬ Misread py raw) : Exact py raw := by
  intro place value
  constructor
  · intro hok
    have hsome : ∃ t, instantOf py raw = some t := by
      cases hinstant : instantOf py raw with
      | some t => exact ⟨t, rfl⟩
      | none =>
        rw [encodeInstant, hinstant] at hok
        dsimp only at hok
        split_ifs at hok
    obtain ⟨t, ht⟩ := hsome
    obtain ⟨l, htext, hfits, -⟩ := instantOf_eq_some ht
    have hraw : raw = String.ofList l.text := by rw [htext, String.ofList_toList]
    rw [hraw] at hok
    obtain ⟨hchecked, htotal⟩ := (encodeInstant_text hpy hfits place value).mp hok
    have hkinds : ¬ _ := fun hkind => h ⟨l, htext, hfits, hchecked, hkind⟩
    simp only [not_or, not_not, Nat.not_lt, Bool.not_eq_true] at hkinds
    obtain ⟨hday, hhours, hminutes, hascii, hnewline⟩ := hkinds
    have hreading := @reading_ascii py l hascii
    have hreal : (l.reading asciiValue).Real := by
      rw [← hreading]
      exact ⟨hchecked.year, hchecked.month_pos, hchecked.month_le, hchecked.day_pos, hday,
        hchecked.hour, hchecked.minute, hchecked.second, hhours, hminutes⟩
    refine ⟨⟨l, hascii, hnewline, hreal⟩, hraw.symm, ?_⟩
    rw [Timestamp.millis_eq, Timestamp.reading, ← hreading, htotal]
  · rintro ⟨t, rfl, rfl⟩
    exact t.encode hpy place

/-- **Instants.** A text is read exactly iff it is not misread.  Every timestamp has a value, two
timestamps have one value iff they name one instant to the millisecond, and the values stand as the
instants do; at one offset, as the local dates and clocks do. -/
theorem encodes_exactly_iff (py : Python) (hpy : DecimalDigits py) :
    (∀ raw, Exact py raw ↔ ¬ Misread py raw) ∧
    ∀ (t u : Timestamp) (place : String), ∃ v w,
      encodeInstant py t.text place = .ok v ∧ encodeInstant py u.text place = .ok w ∧
      (v = w ↔ t.millis = u.millis) ∧ (t.seconds ≤ u.seconds → v ≤ w) ∧
      (t.reading.offset = u.reading.offset → t.reading.stamp.second ≤ 59 →
        t.clock ≤ u.clock → v ≤ w) := by
  constructor
  · intro raw
    exact ⟨fun hexact hmisread => not_exact_of_misread hpy hmisread hexact,
      exact_of_not_misread hpy⟩
  · intro t u place
    refine ⟨t.millis, u.millis, t.encode hpy place, u.encode hpy place, Iff.rfl,
      Timestamp.millis_le, ?_⟩
    intro hoffset ht hclock
    exact Timestamp.millis_le (Timestamp.seconds_le_of_clock_le hoffset ht hclock)

theorem decimalDigits_ascii : DecimalDigits .ascii where
  ascii ch _ h := by
    rw [Python.ascii]
    exact if_neg (by rw [h]; exact nofun)
  lt_ten ch d h := by
    rw [Python.ascii] at h
    dsimp only at h
    split_ifs at h with hdigit
    cases h
    have hbounds := Char.isDigit_iff_toNat.mp hdigit
    have hzero : '0'.toNat = 48 := rfl
    have hnine : '9'.toNat = 57 := rfl
    omega

theorem encodes_exactly_ascii :
    DecimalDigits .ascii ∧ ∀ raw, Exact .ascii raw ↔ ¬ Misread .ascii raw :=
  ⟨decimalDigits_ascii, (encodes_exactly_iff .ascii decimalDigits_ascii).1⟩

/-- The thirtieth of February. -/
def thirtiethOfFebruary : Layout where
  year := ['2', '0', '2', '6']
  month := ['0', '2']
  day := ['3', '0']
  separator := 'T'
  hour := ['0', '0']
  minute := ['0', '0']
  second := ['0', '0']
  fraction := []
  zone := .utc 'Z'
  newline := false

theorem misread_thirtiethOfFebruary : Misread .ascii "2026-02-30T00:00:00Z" := by
  have hrow {n : ℕ} {chars : List Char} (hlength : chars.length = n)
      (hdigits : chars.all fun ch => ((Python.ascii).decimal ch).isSome) :
      DigitRow (IsDecimal .ascii) n chars :=
    ⟨hlength, fun ch hch => List.all_eq_true.mp hdigits ch hch⟩
  refine ⟨thirtiethOfFebruary, rfl, ?_, ?_, .inl (by decide)⟩
  · exact ⟨hrow rfl rfl, hrow rfl rfl, hrow rfl rfl, .inl rfl, hrow rfl rfl, hrow rfl rfl,
      hrow rfl rfl, nofun, .inl rfl⟩
  · exact ⟨by decide, by decide, by decide, by decide, by decide, by decide, by decide, by decide⟩

/-- The thirtieth of February has the value of the second of March. -/
theorem not_exact_thirtiethOfFebruary :
    ¬ Exact .ascii "2026-02-30T00:00:00Z" ∧
      encodeInstant .ascii "2026-02-30T00:00:00Z" "at" =
        encodeInstant .ascii "2026-03-02T00:00:00Z" "at" :=
  ⟨not_exact_of_misread decimalDigits_ascii misread_thirtiethOfFebruary, by decide⟩

end Lnpl.Interp
