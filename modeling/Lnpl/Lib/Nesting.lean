import Lnpl.Lib.JsonText
import Lnpl.Lib.Results

/-!
# The nesting of JSON texts

How deep the containers of a text stand inside each other, and how to see it without parsing.  A
reader that counts brackets outside of strings (`Brackets`) has reached, behind a value, the nesting
of the value's text (`brackets_shapeOnce`); and a parser that finds a container too deep has made it
count that far (`le_brackets_of_recursionError`), whatever the text goes on with.
-/

namespace Lnpl.Lib.JsonText

open Lnpl.Lib (map_eq_ok)

/-! ### The containers of a text -/

mutual

/-- How many containers stand inside each other. -/
def Json.nesting : Json → Nat
  | .list items => 1 + nestingItems items
  | .dict fields => 1 + nestingFields fields
  | _ => 0

def nestingItems : List Json → Nat
  | [] => 0
  | value :: items => max value.nesting (nestingItems items)

def nestingFields : Fields → Nat
  | [] => 0
  | (_, value) :: fields => max value.nesting (nestingFields fields)

end

/-- The values written in an object, as a list. -/
def shapeObject (scan : Scan) (text : Text) : Except Fault (Json × Text) :=
  if (skipSpace text).head? = some '\x7d'.toNat then .ok (.list [], (skipSpace text).tail)
  else
    (scanFields scan (text.length + 1) (skipSpace text)).map fun read =>
      (.list (read.1.map Prod.snd), read.2)

/-- The containers of a value's text, as lists; an object holds all the values that are written in
it, those of a repeated key among them, and what is no container is `null`. -/
def shapeOnce : Nat → Scan
  | 0, text =>
    if text.head? = some '['.toNat ∨ text.head? = some '\x7b'.toNat then .error .recursionError
    else (scanAtom text).map fun read => (.null, read.2)
  | room + 1, text =>
    if text.head? = some '['.toNat then scanArray (shapeOnce room) text.tail
    else if text.head? = some '\x7b'.toNat then shapeObject (shapeOnce room) text.tail
    else (scanAtom text).map fun read => (.null, read.2)

/-- The elements of a container, of which there is one, each of them read by `scan`. -/
def scanSeries {α : Type} (close : Nat) (scan : Text → Except Fault (α × Text)) :
    Nat → Text → Except Fault (List α × Text)
  | 0, _ => .error .valueError
  | fuel + 1, text =>
    match scan text with
    | .error fault => .error fault
    | .ok (value, rest) =>
      match skipSpace rest with
      | [] => .error .valueError
      | code :: rest =>
        if code = close then .ok ([value], rest)
        else if code = ','.toNat then
          (scanSeries close scan fuel (skipSpace rest)).map fun read => (value :: read.1, read.2)
        else .error .valueError

theorem scanItems_eq (scan : Scan) : scanItems scan = scanSeries ']'.toNat scan := by
  funext fuel
  induction fuel with
  | zero => rfl
  | succ fuel ih =>
    funext text
    unfold scanItems scanSeries
    rw [ih]
    cases scan text with
    | error fault => rfl
    | ok read => cases hrest : skipSpace read.2 <;> simp only [hrest]

theorem scanFields_eq (scan : Scan) :
    scanFields scan = scanSeries '\x7d'.toNat (scanField scan) := by
  funext fuel
  induction fuel with
  | zero => rfl
  | succ fuel ih =>
    funext text
    unfold scanFields scanSeries
    rw [ih]
    cases scanField scan text with
    | error fault => rfl
    | ok read => cases hrest : skipSpace read.2 <;> simp only [hrest]

/-- What was read as elements: the last one, or an element and the elements behind its comma. -/
theorem scanSeries_cases {α : Type} {close fuel : Nat} {scan : Text → Except Fault (α × Text)}
    {text rest : Text} {values : List α}
    (h : scanSeries close scan (fuel + 1) text = .ok (values, rest)) :
    ∃ value after code after', scan text = .ok (value, after) ∧ skipSpace after = code :: after' ∧
      (code = close ∧ values = [value] ∧ rest = after' ∨
        code = ','.toNat ∧ ∃ values', scanSeries close scan fuel (skipSpace after') =
          .ok (values', rest) ∧ values = value :: values') := by
  unfold scanSeries at h
  cases hscan : scan text with
  | error fault =>
    rw [hscan] at h
    cases h
  | ok first =>
    obtain ⟨value, after⟩ := first
    rw [hscan] at h
    dsimp only at h
    cases hafter : skipSpace after with
    | nil =>
      rw [hafter] at h
      cases h
    | cons code after' =>
      rw [hafter] at h
      dsimp only at h
      refine ⟨value, after, code, after', rfl, hafter, ?_⟩
      by_cases hclose : code = close
      · rw [if_pos hclose] at h
        obtain ⟨hvalues, hrest⟩ := Prod.mk.inj (Except.ok.inj h)
        exact .inl ⟨hclose, hvalues.symm, hrest.symm⟩
      · rw [if_neg hclose] at h
        by_cases hcomma : code = ','.toNat
        · rw [if_pos hcomma] at h
          obtain ⟨⟨values', rest'⟩, hmore, heq⟩ := map_eq_ok.mp h
          obtain ⟨hvalues, hrest⟩ := Prod.mk.inj heq
          exact .inr ⟨hcomma, values', by rw [hmore, ← hrest], hvalues.symm⟩
        · rw [if_neg hcomma] at h
          cases h

/-- What is left behind the value. -/
abbrev behind {α : Type} (read : Except Fault (α × Text)) : Except Fault Text := read.map Prod.snd

section

variable {scan scan' : Scan}

theorem behind_map {α β : Type} (f : α → β) (read : Except Fault (α × Text)) :
    behind (read.map fun read => (f read.1, read.2)) = behind read := by
  cases read with
  | error fault => rfl
  | ok read => rfl

theorem behind_scanSeries {α : Type} {close : Nat} {scan scan' : Text → Except Fault (α × Text)}
    (h : ∀ text, behind (scan text) = behind (scan' text)) : ∀ fuel text,
      behind (scanSeries close scan fuel text) = behind (scanSeries close scan' fuel text) := by
  intro fuel
  induction fuel with
  | zero => exact fun text => rfl
  | succ fuel ih =>
    intro text
    have htext := h text
    unfold scanSeries
    cases hscan : scan text with
    | error fault =>
      rw [hscan] at htext
      cases hscan' : scan' text with
      | error fault' =>
        rw [hscan'] at htext
        exact htext
      | ok read =>
        rw [hscan'] at htext
        cases htext
    | ok read =>
      rw [hscan] at htext
      cases hscan' : scan' text with
      | error fault' =>
        rw [hscan'] at htext
        cases htext
      | ok read' =>
        rw [hscan'] at htext
        have hrest : read.2 = read'.2 := Except.ok.inj htext
        dsimp only
        rw [hrest]
        cases skipSpace read'.2 with
        | nil => rfl
        | cons code rest =>
          dsimp only
          by_cases hclose : code = close
          · rw [if_pos hclose, if_pos hclose]
            rfl
          · rw [if_neg hclose, if_neg hclose]
            by_cases hcomma : code = ','.toNat
            · rw [if_pos hcomma, if_pos hcomma]
              have hmore := ih (skipSpace rest)
              exact (behind_map _ _).trans (hmore.trans (behind_map _ _).symm)
            · rw [if_neg hcomma, if_neg hcomma]

theorem behind_scanField (h : ∀ text, behind (scan text) = behind (scan' text)) (text : Text) :
    behind (scanField scan text) = behind (scanField scan' text) := by
  unfold scanField
  by_cases hquote : text.head? = some '"'.toNat
  · rw [if_pos hquote, if_pos hquote]
    cases scanString none text.tail with
    | error fault => rfl
    | ok key =>
      dsimp only
      by_cases hcolon : (skipSpace key.2).head? = some ':'.toNat
      · rw [if_pos hcolon, if_pos hcolon]
        exact (behind_map _ _).trans ((h _).trans (behind_map _ _).symm)
      · rw [if_neg hcolon, if_neg hcolon]
  · rw [if_neg hquote, if_neg hquote]

/-- The shape of a text is read exactly as the value is. -/
theorem behind_shapeOnce (room : Nat) (text : Text) :
    behind (shapeOnce room text) = behind (scanOnce room text) := by
  induction room generalizing text with
  | zero =>
    unfold shapeOnce scanOnce
    by_cases hopen : text.head? = some '['.toNat ∨ text.head? = some '\x7b'.toNat
    · rw [if_pos hopen, if_pos hopen]
    · rw [if_neg hopen, if_neg hopen]
      exact behind_map (fun _ => Json.null) (scanAtom text)
  | succ room ih =>
    unfold shapeOnce scanOnce
    by_cases harray : text.head? = some '['.toNat
    · rw [if_pos harray, if_pos harray]
      unfold scanArray
      by_cases hempty : (skipSpace text.tail).head? = some ']'.toNat
      · rw [if_pos hempty, if_pos hempty]
      · rw [if_neg hempty, if_neg hempty]
        rw [scanItems_eq, scanItems_eq]
        exact (behind_map _ _).trans ((behind_scanSeries ih _ _).trans (behind_map _ _).symm)
    · rw [if_neg harray, if_neg harray]
      by_cases hobject : text.head? = some '\x7b'.toNat
      · rw [if_pos hobject, if_pos hobject]
        unfold shapeObject scanObject
        by_cases hempty : (skipSpace text.tail).head? = some '\x7d'.toNat
        · rw [if_pos hempty, if_pos hempty]
          rfl
        · rw [if_neg hempty, if_neg hempty]
          rw [scanFields_eq, scanFields_eq]
          have hfields := @behind_scanSeries _ '\x7d'.toNat _ _ (behind_scanField ih)
            (text.tail.length + 1) (skipSpace text.tail)
          refine (behind_map (fun fields : Fields => Json.list (fields.map Prod.snd)) _).trans ?_
          exact hfields.trans (behind_map (fun fields : Fields => Json.dict (dictOf fields)) _).symm
      · rw [if_neg hobject, if_neg hobject]
        exact behind_map (fun _ => Json.null) (scanAtom text)

end

/-! ### Counting brackets -/

/-- A reader that counts the open brackets, those in strings apart. -/
structure Brackets where
  depth : Nat
  maxDepth : Nat
  inString : Bool
  escapeNext : Bool
  deriving DecidableEq

namespace Brackets

def step (s : Brackets) (code : Nat) : Brackets :=
  if s.inString then
    if s.escapeNext then { s with escapeNext := false }
    else if code = '\\'.toNat then { s with escapeNext := true }
    else if code = '"'.toNat then { s with inString := false }
    else s
  else if code = '"'.toNat then { s with inString := true }
  else if code = '\x7b'.toNat ∨ code = '['.toNat then
    { s with depth := s.depth + 1, maxDepth := max s.maxDepth (s.depth + 1) }
  else if code = '\x7d'.toNat ∨ code = ']'.toNat then { s with depth := s.depth - 1 }
  else s

def run (s : Brackets) (text : Text) : Brackets := text.foldl step s

/-- Not in a string. -/
def outside (depth maxDepth : Nat) : Brackets := ⟨depth, maxDepth, false, false⟩

/-- In a string, not behind a backslash. -/
def inside (depth maxDepth : Nat) : Brackets := ⟨depth, maxDepth, true, false⟩

/-- A code point that does not count outside of a string. -/
def IsNeutral (code : Nat) : Prop :=
  code ≠ '"'.toNat ∧ code ≠ '\x7b'.toNat ∧ code ≠ '['.toNat ∧ code ≠ '\x7d'.toNat ∧ code ≠ ']'.toNat

instance (code : Nat) : Decidable (IsNeutral code) := inferInstanceAs (Decidable (_ ∧ _))

theorem run_append (s : Brackets) (text text' : Text) :
    s.run (text ++ text') = (s.run text).run text' :=
  List.foldl_append

theorem run_cons (s : Brackets) (code : Nat) (text : Text) :
    s.run (code :: text) = (s.step code).run text := rfl

/-- What was reached stays. -/
theorem maxDepth_le_step (s : Brackets) (code : Nat) : s.maxDepth ≤ (s.step code).maxDepth := by
  unfold step
  split_ifs
  all_goals first | exact Nat.le_refl _ | exact Nat.le_max_left _ _

theorem maxDepth_le_run (s : Brackets) (text : Text) : s.maxDepth ≤ (s.run text).maxDepth := by
  induction text generalizing s with
  | nil => exact Nat.le_refl _
  | cons code text ih => exact (maxDepth_le_step s code).trans (ih _)

variable {d m : Nat}

theorem step_neutral {code : Nat} (h : IsNeutral code) : (outside d m).step code = outside d m := by
  obtain ⟨hquote, hbrace, hbracket, hbrace', hbracket'⟩ := h
  unfold step
  rw [if_neg (show ¬ (outside d m).inString = true from Bool.false_ne_true), if_neg hquote,
    if_neg (not_or.mpr ⟨hbrace, hbracket⟩), if_neg (not_or.mpr ⟨hbrace', hbracket'⟩)]

theorem run_neutral {text : Text} (h : ∀ code ∈ text, IsNeutral code) :
    (outside d m).run text = outside d m := by
  induction text with
  | nil => rfl
  | cons code text ih =>
    rw [run_cons, step_neutral (h code List.mem_cons_self)]
    exact ih fun code' hcode' => h code' (List.mem_cons_of_mem code hcode')

theorem step_open {code : Nat} (h : code = '\x7b'.toNat ∨ code = '['.toNat) :
    (outside d m).step code = outside (d + 1) (max m (d + 1)) := by
  rcases h with rfl | rfl
  · rfl
  · rfl

theorem step_close {code : Nat} (h : code = '\x7d'.toNat ∨ code = ']'.toNat) :
    (outside (d + 1) m).step code = outside d m := by
  rcases h with rfl | rfl
  · rfl
  · rfl

/-- A character of a string. -/
theorem step_inside {code : Nat} (hquote : code ≠ '"'.toNat) (hslash : code ≠ '\\'.toNat) :
    (inside d m).step code = inside d m := by
  unfold step
  rw [if_pos (show (inside d m).inString = true from rfl),
    if_neg (show ¬ (inside d m).escapeNext = true from Bool.false_ne_true), if_neg hslash,
    if_neg hquote]

/-- A backslash, and the character behind it. -/
theorem run_escape (code : Nat) (text : Text) :
    (inside d m).run ('\\'.toNat :: code :: text) = (inside d m).run text := rfl

theorem run_inside {text : Text} (h : ∀ code ∈ text, code ≠ '"'.toNat ∧ code ≠ '\\'.toNat) :
    (inside d m).run text = inside d m := by
  induction text with
  | nil => rfl
  | cons code text ih =>
    obtain ⟨hquote, hslash⟩ := h code List.mem_cons_self
    rw [run_cons, step_inside hquote hslash]
    exact ih fun code' hcode' => h code' (List.mem_cons_of_mem code hcode')

end Brackets

/-! ### What the parts of a value count -/

open Brackets

variable {code : Nat} {text rest : Text} {value : Json}

/-- A space does not count. -/
theorem isNeutral_of_isSpace (h : isSpace code = true) : IsNeutral code := by
  unfold isSpace at h
  simp only [Bool.or_eq_true, decide_eq_true_eq] at h
  rcases h with ((rfl | rfl) | rfl) | rfl
  · decide
  · decide
  · decide
  · decide

theorem isNeutral_of_isDigit (h : isDigit code = true) : IsNeutral code := by
  unfold isDigit at h
  obtain ⟨hle, hge⟩ := Bool.and_eq_true_iff.mp h
  have hle := of_decide_eq_true hle
  have hge := of_decide_eq_true hge
  refine ⟨?_, ?_, ?_, ?_, ?_⟩
  · show code ≠ 34
    omega
  · show code ≠ 123
    omega
  · show code ≠ 91
    omega
  · show code ≠ 125
    omega
  · show code ≠ 93
    omega

/-- Spaces in front of a text are skipped, and do not count. -/
theorem exists_spaces (text : Text) : ∃ spaces, text = spaces ++ skipSpace text ∧
    ∀ d m, (outside d m).run spaces = outside d m := by
  refine ⟨text.takeWhile isSpace, List.takeWhile_append_dropWhile.symm, fun d m => ?_⟩
  apply run_neutral
  intro code hcode
  exact isNeutral_of_isSpace (List.mem_takeWhile_imp hcode)

theorem hexValue_ne {value : Nat} (h : hexValue code = some value) :
    code ≠ '"'.toNat ∧ code ≠ '\\'.toNat := by
  show code ≠ 34 ∧ code ≠ 92
  unfold hexValue at h
  split_ifs at h
  · omega
  · omega
  · omega

theorem hexValue_of_hex4 {a b d e unit : Nat} (h : hex4 a b d e = some unit) :
    ∀ code ∈ [a, b, d, e], code ≠ '"'.toNat ∧ code ≠ '\\'.toNat := by
  unfold hex4 at h
  obtain ⟨x, hx, h⟩ := Option.bind_eq_some_iff.mp h
  obtain ⟨y, hy, h⟩ := Option.bind_eq_some_iff.mp h
  obtain ⟨z, hz, h⟩ := Option.bind_eq_some_iff.mp h
  obtain ⟨w, hw, -⟩ := Option.bind_eq_some_iff.mp h
  intro code hcode
  rcases List.mem_cons.mp hcode with rfl | hcode
  · exact hexValue_ne hx
  rcases List.mem_cons.mp hcode with rfl | hcode
  · exact hexValue_ne hy
  rcases List.mem_cons.mp hcode with rfl | hcode
  · exact hexValue_ne hz
  rw [List.mem_singleton.mp hcode]
  exact hexValue_ne hw

/-- What a map has read is read behind the same part. -/
theorem map_before_eq_ok {front str after : Text} {read : Except Fault (Text × Text)}
    (h : read.map (before front) = .ok (str, after)) : ∃ str', read = .ok (str', after) := by
  cases read with
  | error fault => cases h
  | ok read =>
    have hafter : read.2 = after := (Prod.mk.inj (Except.ok.inj h)).2
    exact ⟨read.1, by rw [← hafter]⟩

/-- A string ends where the brackets count again. -/
theorem run_scanString {high : Option Nat} {str after : Text}
    (h : scanString high text = .ok (str, after)) :
    ∃ read, text = read ++ after ∧ ∀ d m, (inside d m).run read = outside d m := by
  fun_induction scanString high text generalizing str with
  | case1 => cases h
  | case2 high rest =>
    rw [← (Prod.mk.inj (Except.ok.inj h)).2]
    exact ⟨['"'.toNat], rfl, fun d m => rfl⟩
  | case3 => cases h
  | case4 => cases h
  | case5 high a b d e rest unit hhex hne ih =>
    obtain ⟨str', h⟩ := map_before_eq_ok h
    obtain ⟨read, hrest, hrun⟩ := ih h
    refine ⟨'\\'.toNat :: 'u'.toNat :: ([a, b, d, e] ++ read), by rw [hrest]; rfl, fun d' m => ?_⟩
    rw [run_escape, run_append, run_inside (hexValue_of_hex4 hhex), hrun]
  | case6 => cases h
  | case7 => cases h
  | case8 high mark rest hmark code hunescape hne ih =>
    obtain ⟨str', h⟩ := map_before_eq_ok h
    obtain ⟨read, hrest, hrun⟩ := ih h
    refine ⟨'\\'.toNat :: mark :: read, by rw [hrest]; rfl, fun d m => ?_⟩
    rw [run_escape, hrun]
  | case9 => cases h
  | case10 high code rest hquote hslash hprintable ih =>
    obtain ⟨str', h⟩ := map_before_eq_ok h
    obtain ⟨read, hrest, hrun⟩ := ih h
    refine ⟨code :: read, by rw [hrest]; rfl, fun d m => ?_⟩
    rw [run_cons, step_inside hquote hslash, hrun]

/-! ### Numbers and constants -/

/-- A character of a number. -/
def IsNumeral (code : Nat) : Prop := isDigit code = true ∨ code ∈ codes "+-.Ee"

instance (code : Nat) : Decidable (IsNumeral code) := inferInstanceAs (Decidable (_ ∨ _))

theorem isNeutral_of_isNumeral {code : Nat} (h : IsNumeral code) : IsNeutral code := by
  rcases h with h | h
  · exact isNeutral_of_isDigit h
  · have hall : ∀ code ∈ codes "+-.Ee", IsNeutral code := by decide
    exact hall code h

/-- The text is the part and what stands behind it, and the part is of a number. -/
def Numerals (text : Text) (part : Text × Text) : Prop :=
  text = part.1 ++ part.2 ∧ ∀ code ∈ part.1, IsNumeral code

theorem Numerals.empty (text : Text) : Numerals text ([], text) :=
  ⟨rfl, fun _ hcode => absurd hcode List.not_mem_nil⟩

theorem numerals_signPart (text : Text) : Numerals text (signPart text) := by
  unfold signPart
  cases text with
  | nil => exact .empty _
  | cons code rest =>
    dsimp only
    by_cases hminus : code = '-'.toNat
    · rw [if_pos hminus, hminus]
      exact ⟨rfl, List.forall_mem_singleton.mpr (by decide)⟩
    · rw [if_neg hminus]
      exact .empty _

theorem numerals_intPart {part : Text × Text} (h : intPart text = some part) :
    Numerals text part := by
  unfold intPart at h
  cases text with
  | nil => cases h
  | cons code rest =>
    dsimp only at h
    by_cases hzero : code = '0'.toNat
    · rw [if_pos hzero] at h
      rw [← Option.some.inj h, hzero]
      exact ⟨rfl, List.forall_mem_singleton.mpr (by decide)⟩
    · rw [if_neg hzero] at h
      by_cases hdigit : isDigit code = true
      · rw [if_pos hdigit] at h
        rw [← Option.some.inj h]
        refine ⟨List.takeWhile_append_dropWhile.symm, fun code' hcode' => ?_⟩
        exact Or.inl (List.mem_takeWhile_imp hcode')
      · rw [if_neg hdigit] at h
        cases h

theorem numerals_digitsBehind {mark : Text} (htext : text = mark ++ rest)
    (hmark : ∀ code ∈ mark, IsNumeral code) : Numerals text (digitsBehind mark text rest) := by
  unfold digitsBehind
  by_cases hnone : rest.takeWhile isDigit = []
  · rw [if_pos hnone]
    exact .empty _
  · rw [if_neg hnone]
    constructor
    · show text = mark ++ rest.takeWhile isDigit ++ rest.dropWhile isDigit
      rw [List.append_assoc, List.takeWhile_append_dropWhile, htext]
    · intro code hcode
      rcases List.mem_append.mp hcode with hcode | hcode
      · exact hmark code hcode
      · exact Or.inl (List.mem_takeWhile_imp hcode)

theorem numerals_fracPart (text : Text) : Numerals text (fracPart text) := by
  unfold fracPart
  cases text with
  | nil => exact .empty _
  | cons code rest =>
    dsimp only
    by_cases hpoint : code = '.'.toNat
    · rw [if_pos hpoint, hpoint]
      exact numerals_digitsBehind rfl (by decide)
    · rw [if_neg hpoint]
      exact .empty _

theorem numerals_expPart (text : Text) : Numerals text (expPart text) := by
  unfold expPart
  cases text with
  | nil => exact .empty _
  | cons code rest =>
    dsimp only
    by_cases hexp : code = 'e'.toNat ∨ code = 'E'.toNat
    · have hcode : IsNumeral code := by rcases hexp with rfl | rfl <;> decide
      rw [if_pos hexp]
      cases rest with
      | nil => exact .empty _
      | cons sign digits =>
        dsimp only
        by_cases hsign : sign = '+'.toNat ∨ sign = '-'.toNat
        · have hmark : IsNumeral sign := by rcases hsign with rfl | rfl <;> decide
          rw [if_pos hsign]
          exact numerals_digitsBehind rfl
            (List.forall_mem_cons.mpr ⟨hcode, List.forall_mem_singleton.mpr hmark⟩)
        · rw [if_neg hsign]
          exact numerals_digitsBehind rfl (List.forall_mem_singleton.mpr hcode)
    · rw [if_neg hexp]
      exact .empty _

/-- A number is read from its characters. -/
theorem numerals_scanNumber (h : scanNumber text = .ok (value, rest)) :
    ∃ read, Numerals text (read, rest) := by
  unfold scanNumber at h
  dsimp only at h
  obtain ⟨hsign, hsignCodes⟩ := numerals_signPart text
  cases hint : intPart (signPart text).2 with
  | none =>
    rw [hint] at h
    cases h
  | some int =>
    rw [hint] at h
    dsimp only at h
    obtain ⟨hintText, hintCodes⟩ := numerals_intPart hint
    obtain ⟨hfrac, hfracCodes⟩ := numerals_fracPart int.2
    obtain ⟨hexp, hexpCodes⟩ := numerals_expPart (fracPart int.2).2
    have hrest : (expPart (fracPart int.2).2).2 = rest := by
      split_ifs at h
      all_goals exact (Prod.mk.inj (Except.ok.inj h)).2
    refine ⟨(signPart text).1 ++ int.1 ++ (fracPart int.2).1 ++ (expPart (fracPart int.2).2).1,
      ?_, ?_⟩
    · show text = _ ++ rest
      rw [← hrest, List.append_assoc, ← hexp, List.append_assoc, ← hfrac, List.append_assoc,
        ← hintText, ← hsign]
    · rw [List.forall_mem_append, List.forall_mem_append, List.forall_mem_append]
      exact ⟨⟨⟨hsignCodes, hintCodes⟩, hfracCodes⟩, hexpCodes⟩

theorem neutral_scanConstant (h : scanConstant text = some (value, rest)) :
    ∃ read, text = read ++ rest ∧ ∀ code ∈ read, IsNeutral code := by
  unfold scanConstant at h
  obtain ⟨constant, hmem, hconstant⟩ := List.exists_of_findSome?_eq_some h
  obtain ⟨rest', hsuffix, heq⟩ := Option.map_eq_some_iff.mp hconstant
  refine ⟨constant.1, ?_, ?_⟩
  · rw [← (Prod.mk.inj heq).2]
    exact (List.isPrefixOf?_eq_some_iff_append_eq.mp hsuffix).symm
  · have hall : ∀ constant ∈ constants.map Prod.fst, ∀ code ∈ constant, IsNeutral code := by decide
    exact hall constant.1 (List.mem_map_of_mem hmem)

/-- A value that holds no other does not count. -/
theorem run_scanAtom (h : scanAtom text = .ok (value, rest)) :
    ∃ read, text = read ++ rest ∧ ∀ d m, (outside d m).run read = outside d m := by
  unfold scanAtom at h
  by_cases hquote : text.head? = some '"'.toNat
  · rw [if_pos hquote] at h
    obtain ⟨read, hread, heq⟩ := map_eq_ok.mp h
    obtain ⟨str, rest'⟩ := read
    obtain ⟨read, htail, hrun⟩ := run_scanString hread
    refine ⟨'"'.toNat :: read, ?_, fun d m => ?_⟩
    · rw [← (Prod.mk.inj heq).2, List.cons_append, ← htail]
      exact (List.head?_eq_some_iff.mp hquote).elim fun tail htext => by rw [htext]; rfl
    · exact hrun d m
  · rw [if_neg hquote] at h
    cases hconstant : scanConstant text with
    | some read =>
      rw [hconstant] at h
      rw [Except.ok.inj h] at hconstant
      obtain ⟨read, htext, hneutral⟩ := neutral_scanConstant hconstant
      exact ⟨read, htext, fun d m => run_neutral hneutral⟩
    | none =>
      rw [hconstant] at h
      obtain ⟨read, htext, hcodes⟩ := numerals_scanNumber h
      exact ⟨read, htext, fun d m => run_neutral fun code hcode =>
        isNeutral_of_isNumeral (hcodes code hcode)⟩

/-! ### What a value counts -/

/-- What is read counts the nesting of the value. -/
def Counts (scan : Scan) : Prop :=
  ∀ text value rest, scan text = .ok (value, rest) → ∃ read, text = read ++ rest ∧
    ∀ d m, d ≤ m → (outside d m).run read = outside d (max m (d + value.nesting))

/-- An element counts the nesting of its value. -/
def CountsAs {α : Type} (element : α → Json) (scan : Text → Except Fault (α × Text)) : Prop :=
  ∀ text value rest, scan text = .ok (value, rest) → ∃ read, text = read ++ rest ∧
    ∀ d m, d ≤ m → (outside d m).run read = outside d (max m (d + (element value).nesting))

/-- The brackets of the text count so many containers more. -/
def Deepens (room : Nat) (text : Text) : Prop :=
  ∀ d m, d ≤ m → d + room + 1 ≤ ((outside d m).run text).maxDepth

/-- Where a container is found too deep, that many are counted. -/
def Exhausts (room : Nat) (scan : Scan) : Prop :=
  ∀ text, scan text = .error .recursionError → Deepens room text

section

variable {scan : Scan} {room : Nat}

variable {text rest : Text}

/-- Spaces in front of what was read. -/
theorem run_skipSpace {read : Text} (h : skipSpace text = read ++ rest) :
    ∃ read', text = read' ++ rest ∧ ∀ d m, (outside d m).run read' = (outside d m).run read := by
  obtain ⟨spaces, htext, hspaces⟩ := exists_spaces text
  refine ⟨spaces ++ read, ?_, fun d m => ?_⟩
  · rw [List.append_assoc, ← h]
    exact htext
  · rw [run_append, hspaces]

/-- A text counts what it counts behind its spaces. -/
theorem run_skipSpace_eq (text : Text) (d m : Nat) :
    (outside d m).run text = (outside d m).run (skipSpace text) := by
  obtain ⟨spaces, htext, hspaces⟩ := exists_spaces text
  conv => lhs; rw [htext]
  rw [run_append, hspaces]

/-- An element, and the bracket that closes its container. -/
theorem run_close {text read after rest : Text} {code n : Nat} (htext : text = read ++ after)
    (hread : ∀ d m, d ≤ m → (outside d m).run read = outside d (max m (d + n)))
    (hafter : skipSpace after = code :: rest) (hclose : code = '\x7d'.toNat ∨ code = ']'.toNat) :
    ∃ read', text = read' ++ rest ∧ ∀ d m, d + 1 ≤ m → (outside (d + 1) m).run read' =
      outside d (max m (d + 1 + n)) := by
  have hbracket : skipSpace after = [code] ++ rest := hafter
  obtain ⟨bracket, hsplit, hrun⟩ := run_skipSpace hbracket
  refine ⟨read ++ bracket, by rw [List.append_assoc, ← hsplit]; exact htext, fun d m hm => ?_⟩
  rw [run_append, hread _ _ hm, hrun, run_cons, step_close hclose]
  rfl

/-- An element, a comma, and the elements behind it. -/
theorem run_comma {read after after' more : Text} {code n k : Nat} (htext : text = read ++ after)
    (hread : ∀ d m, d ≤ m → (outside d m).run read = outside d (max m (d + n)))
    (hafter : skipSpace after = code :: after') (hcomma : code = ','.toNat)
    (hmore : skipSpace after' = more ++ rest)
    (hmoreRun : ∀ d m, d + 1 ≤ m → (outside (d + 1) m).run more = outside d (max m (d + 1 + k))) :
    ∃ read', text = read' ++ rest ∧ ∀ d m, d + 1 ≤ m → (outside (d + 1) m).run read' =
      outside d (max m (d + 1 + max n k)) := by
  obtain ⟨more', hsplit, hmoreRun'⟩ := run_skipSpace hmore
  have hcommaText : skipSpace after = (code :: more') ++ rest := by
    rw [hafter, hsplit]
    rfl
  obtain ⟨tail, htail, htailRun⟩ := run_skipSpace hcommaText
  have hneutral : IsNeutral code := by
    rw [hcomma]
    decide
  refine ⟨read ++ tail, by rw [List.append_assoc, ← htail]; exact htext, fun d m hm => ?_⟩
  have hmore' : d + 1 ≤ max m (d + 1 + n) := by omega
  rw [run_append, hread _ _ hm, htailRun, run_cons, step_neutral hneutral, hmoreRun',
    hmoreRun _ _ hmore']
  congr 1
  omega

/-- The elements of a container, and the bracket behind them. -/
theorem run_scanSeries {α : Type} {element : α → Json} {close fuel : Nat}
    {scan : Text → Except Fault (α × Text)} {values : List α}
    (hclose : close = '\x7d'.toNat ∨ close = ']'.toNat) (hcounts : CountsAs element scan)
    (h : scanSeries close scan fuel text = .ok (values, rest)) :
    ∃ read, text = read ++ rest ∧ ∀ d m, d + 1 ≤ m → (outside (d + 1) m).run read =
      outside d (max m (d + 1 + nestingItems (values.map element))) := by
  induction fuel generalizing text values with
  | zero => cases h
  | succ fuel ih =>
    obtain ⟨value, after, code, after', hscan, hafter, hlast | hmore⟩ := scanSeries_cases h
    all_goals obtain ⟨read, htext, hrun⟩ := hcounts _ _ _ hscan
    · obtain ⟨hcode, rfl, rfl⟩ := hlast
      obtain ⟨read', htext', hrun'⟩ := run_close htext hrun hafter (by rw [hcode]; exact hclose)
      refine ⟨read', htext', fun d m hm => ?_⟩
      rw [hrun' d m hm]
      show _ = outside d (max m (d + 1 + max (element value).nesting 0))
      rw [Nat.max_zero]
    · obtain ⟨hcomma, values', hvalues', rfl⟩ := hmore
      obtain ⟨more, hmoreText, hmoreRun⟩ := ih hvalues'
      exact run_comma htext hrun hafter hcomma hmoreText hmoreRun

/-- A key counts nothing. -/
theorem run_scanField (hcounts : Counts scan) : CountsAs Prod.snd (scanField scan) := by
  intro text entry rest h
  unfold scanField at h
  by_cases hquote : text.head? = some '"'.toNat
  · rw [if_pos hquote] at h
    cases hkey : scanString none text.tail with
    | error fault =>
      rw [hkey] at h
      cases h
    | ok key =>
      obtain ⟨key, after⟩ := key
      rw [hkey] at h
      dsimp only at h
      obtain ⟨keyText, htail, hkeyRun⟩ := run_scanString hkey
      by_cases hcolon : (skipSpace after).head? = some ':'.toNat
      · rw [if_pos hcolon] at h
        obtain ⟨⟨value, rest'⟩, hvalue, heq⟩ := map_eq_ok.mp h
        obtain ⟨hentry, hrest⟩ := Prod.mk.inj heq
        have hvalue : scan (skipSpace (skipSpace after).tail) = .ok (value, rest) := by
          rw [hvalue, ← hrest]
        obtain ⟨read, hread, hrun⟩ := hcounts _ _ _ hvalue
        obtain ⟨read', hread', hrun'⟩ := run_skipSpace hread
        have hcolonText : skipSpace after = (':'.toNat :: read') ++ rest := by
          obtain ⟨tail, htail⟩ := List.head?_eq_some_iff.mp hcolon
          rw [htail] at hread' ⊢
          rw [List.cons_append, ← hread']
          rfl
        obtain ⟨colon, hsplit, hcolonRun⟩ := run_skipSpace hcolonText
        refine ⟨'"'.toNat :: (keyText ++ colon), ?_, fun d m hm => ?_⟩
        · obtain ⟨tail, htext⟩ := List.head?_eq_some_iff.mp hquote
          rw [htext] at htail ⊢
          rw [List.cons_append, List.append_assoc, ← hsplit, ← htail]
          rfl
        · rw [← hentry]
          show (inside d m).run (keyText ++ colon) = _
          have hneutral : IsNeutral ':'.toNat := by decide
          rw [run_append, hkeyRun, hcolonRun, run_cons, step_neutral hneutral, hrun',
            hrun d m hm]
      · rw [if_neg hcolon] at h
        cases h
  · rw [if_neg hquote] at h
    cases h

/-- A container: its bracket, and what is read behind it. -/
theorem run_container {text read rest : Text} {code n : Nat} (htext : text.head? = some code)
    (hopen : code = '\x7b'.toNat ∨ code = '['.toNat) (htail : text.tail = read ++ rest)
    (hread : ∀ d m, d + 1 ≤ m → (outside (d + 1) m).run read = outside d (max m (d + 1 + n))) :
    ∃ read', text = read' ++ rest ∧
      ∀ d m, d ≤ m → (outside d m).run read' = outside d (max m (d + (1 + n))) := by
  refine ⟨code :: read, ?_, fun d m hm => ?_⟩
  · obtain ⟨tail, htext⟩ := List.head?_eq_some_iff.mp htext
    rw [htext] at htail ⊢
    rw [List.cons_append, ← htail]
    rfl
  · rw [run_cons, step_open hopen, hread d _ (Nat.le_max_right _ _)]
    congr 1
    omega

/-- An empty container, behind its bracket. -/
theorem run_empty {text : Text} {code : Nat} (hclose : code = '\x7d'.toNat ∨ code = ']'.toNat)
    (h : (skipSpace text).head? = some code) :
    ∃ read, text = read ++ (skipSpace text).tail ∧
      ∀ d m, d + 1 ≤ m → (outside (d + 1) m).run read = outside d (max m (d + 1 + 0)) := by
  have hbracket : skipSpace text = [code] ++ (skipSpace text).tail := by
    obtain ⟨tail, htail⟩ := List.head?_eq_some_iff.mp h
    rw [htail]
    rfl
  obtain ⟨read, hread, hrun⟩ := run_skipSpace hbracket
  refine ⟨read, hread, fun d m hm => ?_⟩
  rw [hrun, run_cons, step_close hclose]
  show outside d m = _
  congr 1
  omega

/-- A container that is empty or holds elements, behind its bracket. -/
theorem run_elements {α : Type} {element : α → Json} {wrap : List α → Json}
    {openCode close fuel : Nat} {scan : Text → Except Fault (α × Text)} {value : Json}
    (hwrap : ∀ values, (wrap values).nesting = 1 + nestingItems (values.map element))
    (hopen : openCode = '\x7b'.toNat ∨ openCode = '['.toNat)
    (hclose : close = '\x7d'.toNat ∨ close = ']'.toNat) (hcounts : CountsAs element scan)
    (htext : text.head? = some openCode)
    (h : (if (skipSpace text.tail).head? = some close then
        .ok (wrap [], (skipSpace text.tail).tail)
      else (scanSeries close scan fuel (skipSpace text.tail)).map fun read =>
        (wrap read.1, read.2)) = (.ok (value, rest) : Except Fault (Json × Text))) :
    ∃ read, text = read ++ rest ∧
      ∀ d m, d ≤ m → (outside d m).run read = outside d (max m (d + value.nesting)) := by
  by_cases hempty : (skipSpace text.tail).head? = some close
  · rw [if_pos hempty] at h
    obtain ⟨hvalue, hrest⟩ := Prod.mk.inj (Except.ok.inj h)
    rw [← hvalue, ← hrest, hwrap]
    obtain ⟨read, htail, hrun⟩ := run_empty hclose hempty
    exact run_container htext hopen htail hrun
  · rw [if_neg hempty] at h
    obtain ⟨⟨values, rest'⟩, hvalues, heq⟩ := map_eq_ok.mp h
    obtain ⟨hvalue, hrest⟩ := Prod.mk.inj heq
    rw [← hvalue, ← hrest, hwrap]
    obtain ⟨read, hread, hrun⟩ := run_scanSeries hclose hcounts hvalues
    obtain ⟨read', htail, hrun'⟩ := run_skipSpace hread
    refine run_container htext hopen htail fun d m hm => ?_
    rw [hrun', hrun d m hm]

/-- What holds no other value. -/
theorem run_shapeAtom {value : Json}
    (h : (scanAtom text).map (fun read => (Json.null, read.2)) = .ok (value, rest)) :
    ∃ read, text = read ++ rest ∧
      ∀ d m, d ≤ m → (outside d m).run read = outside d (max m (d + value.nesting)) := by
  obtain ⟨⟨atom, rest'⟩, hatom, heq⟩ := map_eq_ok.mp h
  obtain ⟨hvalue, hrest⟩ := Prod.mk.inj heq
  obtain ⟨read, htext, hrun⟩ := run_scanAtom hatom
  refine ⟨read, by rw [← hrest]; exact htext, fun d m hm => ?_⟩
  rw [hrun, ← hvalue]
  show outside d m = outside d (max m d)
  rw [Nat.max_eq_left hm]

end

/-- **The shape of a value is counted.** -/
theorem counts_shapeOnce (room : Nat) : Counts (shapeOnce room) := by
  induction room with
  | zero =>
    intro text value rest h
    unfold shapeOnce at h
    by_cases hopen : text.head? = some '['.toNat ∨ text.head? = some '\x7b'.toNat
    · rw [if_pos hopen] at h
      cases h
    · rw [if_neg hopen] at h
      exact run_shapeAtom h
  | succ room ih =>
    intro text value rest h
    unfold shapeOnce at h
    by_cases harray : text.head? = some '['.toNat
    · rw [if_pos harray] at h
      unfold scanArray at h
      rw [scanItems_eq] at h
      exact run_elements
        (fun values => by rw [List.map_id']; rfl) (.inr rfl) (.inr rfl) ih harray h
    · rw [if_neg harray] at h
      by_cases hobject : text.head? = some '\x7b'.toNat
      · rw [if_pos hobject] at h
        unfold shapeObject at h
        rw [scanFields_eq] at h
        have hwrap (fields : Fields) : (Json.list (fields.map Prod.snd)).nesting =
            1 + nestingItems (fields.map Prod.snd) := rfl
        exact run_elements hwrap (.inl rfl) (.inl rfl) (run_scanField ih) hobject h
      · rw [if_neg hobject] at h
        exact run_shapeAtom h

/-! ### What stands too deep -/

theorem scanString_ne_recursion (high : Option Nat) (text : Text) :
    scanString high text ≠ .error .recursionError := by
  have hmap {front : Text} {read : Except Fault (Text × Text)}
      (h : read ≠ .error .recursionError) : read.map (before front) ≠ .error .recursionError := by
    cases read with
    | error fault => exact fun heq => h (congrArg Except.error (Except.error.inj heq))
    | ok read => exact fun heq => nomatch heq
  fun_induction scanString high text with
  | case1 => exact fun h => nomatch h
  | case2 => exact fun h => nomatch h
  | case3 => exact fun h => nomatch h
  | case4 => exact fun h => nomatch h
  | case5 high a b d e rest unit hhex hne ih => exact hmap ih
  | case6 => exact fun h => nomatch h
  | case7 => exact fun h => nomatch h
  | case8 high mark rest hmark code hunescape hne ih => exact hmap ih
  | case9 => exact fun h => nomatch h
  | case10 high code rest hquote hslash hprintable ih => exact hmap ih

theorem scanNumber_ne_recursion (text : Text) : scanNumber text ≠ .error .recursionError := by
  unfold scanNumber
  dsimp only
  cases intPart (signPart text).2 with
  | none => exact fun h => nomatch h
  | some int =>
    dsimp only
    split_ifs
    all_goals exact fun h => nomatch h

theorem scanAtom_ne_recursion (text : Text) : scanAtom text ≠ .error .recursionError := by
  unfold scanAtom
  by_cases hquote : text.head? = some '"'.toNat
  · rw [if_pos hquote]
    have hstring := scanString_ne_recursion none text.tail
    cases hread : scanString none text.tail with
    | error fault =>
      rw [hread] at hstring
      exact fun heq => hstring (congrArg Except.error (Except.error.inj heq))
    | ok read => exact fun heq => nomatch heq
  · rw [if_neg hquote]
    cases scanConstant text with
    | some read => exact fun h => nomatch h
    | none => exact scanNumber_ne_recursion text

/-- A map that stops so is the map of what stops so. -/
theorem map_eq_recursion {α β : Type} {f : α → β} {read : Except Fault α}
    (h : read.map f = .error .recursionError) : read = .error .recursionError := by
  cases read with
  | error fault => exact congrArg Except.error (Except.error.inj h)
  | ok a => cases h

/-- Spaces do not hide what stands deep. -/
theorem deepens_of_skipSpace {room : Nat} (h : Deepens room (skipSpace text)) :
    Deepens room text := by
  intro d m hm
  rw [run_skipSpace_eq]
  exact h d m hm

section

variable {scan : Scan} {room : Nat}

variable {text : Text}

/-- What stands deep behind an element and a comma. -/
theorem deepens_comma {read after after' : Text} {code n : Nat} (htext : text = read ++ after)
    (hread : ∀ d m, d ≤ m → (outside d m).run read = outside d (max m (d + n)))
    (hafter : skipSpace after = code :: after') (hneutral : IsNeutral code)
    (h : Deepens room after') : Deepens room text := by
  intro d m hm
  have hle : d ≤ max m (d + n) := by omega
  rw [htext, run_append, hread d m hm, run_skipSpace_eq, hafter, run_cons, step_neutral hneutral]
  exact h d _ hle

theorem exhausts_scanSeries {α : Type} {element : α → Json} {close fuel : Nat}
    {scan : Text → Except Fault (α × Text)} (hcounts : CountsAs element scan)
    (hexhausts : ∀ {text}, scan text = .error .recursionError → Deepens room text)
    (h : scanSeries close scan fuel text = .error .recursionError) : Deepens room text := by
  induction fuel generalizing text with
  | zero => cases h
  | succ fuel ih =>
    unfold scanSeries at h
    cases hscan : scan text with
    | error fault =>
      rw [hscan] at h
      rw [Except.error.inj h] at hscan
      exact hexhausts hscan
    | ok first =>
      obtain ⟨value, after⟩ := first
      rw [hscan] at h
      dsimp only at h
      obtain ⟨read, htext, hrun⟩ := hcounts _ _ _ hscan
      cases hafter : skipSpace after with
      | nil =>
        rw [hafter] at h
        cases h
      | cons code after' =>
        rw [hafter] at h
        dsimp only at h
        by_cases hclose : code = close
        · rw [if_pos hclose] at h
          cases h
        · rw [if_neg hclose] at h
          by_cases hcomma : code = ','.toNat
          · rw [if_pos hcomma] at h
            have hneutral : IsNeutral code := by
              rw [hcomma]
              decide
            exact deepens_comma htext hrun hafter hneutral
              (deepens_of_skipSpace (ih (map_eq_recursion h)))
          · rw [if_neg hcomma] at h
            cases h

theorem exhausts_scanField (hexhausts : Exhausts room scan)
    (h : scanField scan text = .error .recursionError) : Deepens room text := by
  unfold scanField at h
  by_cases hquote : text.head? = some '"'.toNat
  · rw [if_pos hquote] at h
    cases hkey : scanString none text.tail with
    | error fault =>
      rw [hkey] at h
      rw [Except.error.inj h] at hkey
      exact absurd hkey (scanString_ne_recursion none text.tail)
    | ok key =>
      obtain ⟨key, after⟩ := key
      rw [hkey] at h
      dsimp only at h
      obtain ⟨keyText, htail, hkeyRun⟩ := run_scanString hkey
      by_cases hcolon : (skipSpace after).head? = some ':'.toNat
      · rw [if_pos hcolon] at h
        have hvalue := deepens_of_skipSpace (hexhausts _ (map_eq_recursion h))
        obtain ⟨value, hafter⟩ := List.head?_eq_some_iff.mp hcolon
        rw [hafter] at hvalue
        obtain ⟨tail, htext⟩ := List.head?_eq_some_iff.mp hquote
        have htailText : tail = keyText ++ after := by
          rw [htext] at htail
          exact htail
        have hneutral : IsNeutral ':'.toNat := by decide
        intro d m hm
        rw [htext, run_cons, htailText]
        show _ ≤ ((inside d m).run (keyText ++ after)).maxDepth
        rw [run_append, hkeyRun, run_skipSpace_eq, hafter, run_cons, step_neutral hneutral]
        exact hvalue d m hm
      · rw [if_neg hcolon] at h
        cases h
  · rw [if_neg hquote] at h
    cases h

/-- A container around what stands deep. -/
theorem deepens_container {text : Text} {code : Nat} (htext : text.head? = some code)
    (hopen : code = '\x7b'.toNat ∨ code = '['.toNat) (h : Deepens room text.tail) :
    Deepens (room + 1) text := by
  obtain ⟨tail, rfl⟩ := List.head?_eq_some_iff.mp htext
  intro d m _
  have hle := h (d + 1) (max m (d + 1)) (Nat.le_max_right _ _)
  rw [run_cons, step_open hopen]
  show d + (room + 1) + 1 ≤ ((outside (d + 1) (max m (d + 1))).run tail).maxDepth
  have htail : d + 1 + room + 1 ≤ ((outside (d + 1) (max m (d + 1))).run tail).maxDepth := hle
  omega

end

/-- **A shape that is too deep is counted.** -/
theorem exhausts_shapeOnce (room : Nat) : Exhausts room (shapeOnce room) := by
  induction room with
  | zero =>
    intro text h
    unfold shapeOnce at h
    by_cases hopen : text.head? = some '['.toNat ∨ text.head? = some '\x7b'.toNat
    · -- the bracket is counted, whatever stands behind it
      obtain ⟨code, htext, hcode⟩ : ∃ code, text.head? = some code ∧
          (code = '\x7b'.toNat ∨ code = '['.toNat) := by
        rcases hopen with hopen | hopen
        · exact ⟨_, hopen, .inr rfl⟩
        · exact ⟨_, hopen, .inl rfl⟩
      obtain ⟨tail, rfl⟩ := List.head?_eq_some_iff.mp htext
      intro d m _
      rw [run_cons, step_open hcode]
      have hle : max m (d + 1) ≤ ((outside (d + 1) (max m (d + 1))).run tail).maxDepth :=
        maxDepth_le_run (outside (d + 1) (max m (d + 1))) tail
      exact (Nat.le_max_right m (d + 1)).trans hle
    · rw [if_neg hopen] at h
      exact absurd (map_eq_recursion h) (scanAtom_ne_recursion text)
  | succ room ih =>
    intro text h
    unfold shapeOnce at h
    by_cases harray : text.head? = some '['.toNat
    · rw [if_pos harray] at h
      apply deepens_container harray (.inr rfl)
      unfold scanArray at h
      by_cases hempty : (skipSpace text.tail).head? = some ']'.toNat
      · rw [if_pos hempty] at h
        cases h
      · rw [if_neg hempty] at h
        rw [scanItems_eq] at h
        exact deepens_of_skipSpace
          (exhausts_scanSeries (counts_shapeOnce room) (ih _) (map_eq_recursion h))
    · rw [if_neg harray] at h
      by_cases hobject : text.head? = some '\x7b'.toNat
      · rw [if_pos hobject] at h
        apply deepens_container hobject (.inl rfl)
        unfold shapeObject at h
        by_cases hempty : (skipSpace text.tail).head? = some '\x7d'.toNat
        · rw [if_pos hempty] at h
          cases h
        · rw [if_neg hempty] at h
          rw [scanFields_eq] at h
          exact deepens_of_skipSpace (exhausts_scanSeries (run_scanField (counts_shapeOnce room))
            (exhausts_scanField ih) (map_eq_recursion h))
      · rw [if_neg hobject] at h
        exact absurd (map_eq_recursion h) (scanAtom_ne_recursion text)

/-! ### Whole texts -/

/-- A parser that finds a container too deep has made the brackets count that far. -/
theorem deepens_of_recursionError {room : Nat} (h : scanOnce room text = .error .recursionError) :
    Deepens room text := by
  have hshape := behind_shapeOnce room text
  rw [h] at hshape
  exact exhausts_shapeOnce room text (map_eq_recursion hshape)

/-- The shape of a text that is read. -/
theorem shapeOnce_of_scanOnce {room : Nat} (h : scanOnce room text = .ok (value, rest)) :
    ∃ shape, shapeOnce room text = .ok (shape, rest) := by
  have hshape := behind_shapeOnce room text
  rw [h] at hshape
  obtain ⟨⟨shape, rest'⟩, hread, hrest⟩ := map_eq_ok.mp hshape
  have hrest : rest' = rest := hrest
  exact ⟨shape, by rw [hread, hrest]⟩

/-- The containers of a text. -/
def shapeText (room : Nat) (text : Text) : Except Fault Json :=
  (shapeOnce room (skipSpace text)).map Prod.fst

/-- **Accepted texts**: the brackets of the text count the nesting of its containers. -/
theorem brackets_of_loadsText {room : Nat} (h : loadsText room text = .ok value) :
    ∃ shape, shapeText room text = .ok shape ∧
      (outside 0 0).run text = outside 0 shape.nesting := by
  unfold loadsText at h
  by_cases hmark : text.head? = some 0xfeff
  · rw [if_pos hmark] at h
    cases h
  rw [if_neg hmark] at h
  cases hscan : scanOnce room (skipSpace text) with
  | error fault =>
    rw [hscan] at h
    cases h
  | ok read =>
    obtain ⟨value', rest⟩ := read
    rw [hscan] at h
    dsimp only at h
    by_cases hspaces : skipSpace rest = []
    · obtain ⟨shape, hshape⟩ := shapeOnce_of_scanOnce hscan
      obtain ⟨read, hread, hrun⟩ := counts_shapeOnce room _ _ _ hshape
      refine ⟨shape, by rw [shapeText, hshape]; rfl, ?_⟩
      rw [run_skipSpace_eq, hread, run_append, hrun 0 0 (Nat.le_refl 0), run_skipSpace_eq, hspaces]
      show outside 0 (max 0 (0 + shape.nesting)) = outside 0 shape.nesting
      congr 1
      omega
    · rw [if_neg hspaces] at h
      cases h

theorem deepens_of_loadsText {room : Nat} (h : loadsText room text = .error .recursionError) :
    Deepens room text := by
  unfold loadsText at h
  by_cases hmark : text.head? = some 0xfeff
  · rw [if_pos hmark] at h
    cases h
  rw [if_neg hmark] at h
  cases hscan : scanOnce room (skipSpace text) with
  | error fault =>
    rw [hscan] at h
    rw [Except.error.inj h] at hscan
    exact deepens_of_skipSpace (deepens_of_recursionError hscan)
  | ok read =>
    rw [hscan] at h
    dsimp only at h
    split_ifs at h
    cases h

/-! ### Bytes -/

namespace Brackets

/-- Beyond ASCII all code points count alike. -/
theorem step_of_le {code : Nat} (s : Brackets) (h : 128 ≤ code) : s.step code = s.step 128 := by
  have hslash : code ≠ '\\'.toNat := by
    show code ≠ 92
    omega
  have hquote : code ≠ '"'.toNat := by
    show code ≠ 34
    omega
  have hopen : ¬ (code = '\x7b'.toNat ∨ code = '['.toNat) := by
    show ¬ (code = 123 ∨ code = 91)
    omega
  have hclose : ¬ (code = '\x7d'.toNat ∨ code = ']'.toNat) := by
    show ¬ (code = 125 ∨ code = 93)
    omega
  unfold step
  rw [if_neg hslash, if_neg hquote, if_neg hquote, if_neg hopen, if_neg hclose]
  rfl

/-- One of them counts as many of them. -/
theorem step_step (s : Brackets) : (s.step 128).step 128 = s.step 128 := by
  obtain ⟨depth, maxDepth, inString, escapeNext⟩ := s
  cases inString with
  | false => rfl
  | true =>
    cases escapeNext with
    | false => rfl
    | true => rfl

/-- The bytes of a code point beyond ASCII count as the code point. -/
theorem run_beyond {bytes : List Nat} {code : Nat} (hbytes : ∀ b ∈ bytes, 128 ≤ b)
    (hne : bytes ≠ []) (hcode : 128 ≤ code) (s : Brackets) : s.run bytes = s.step code := by
  rw [step_of_le s hcode]
  induction bytes generalizing s with
  | nil => exact absurd rfl hne
  | cons b bytes ih =>
    rw [run_cons, step_of_le s (hbytes b List.mem_cons_self)]
    cases bytes with
    | nil => rfl
    | cons b' bytes =>
      rw [ih (fun b'' hb'' => hbytes b'' (List.mem_cons_of_mem b hb'')) (List.cons_ne_nil _ _),
        step_step]

variable {b : UInt8}

theorem le_of_isTail (h : isTail b = true) : 128 ≤ b.toNat ∧ b.toNat ≤ 191 := by
  obtain ⟨hle, hge⟩ := Bool.and_eq_true_iff.mp h
  exact ⟨of_decide_eq_true hle, of_decide_eq_true hge⟩

theorem le_of_leadsThree {a : UInt8} (h : leadsThree a b = true) :
    128 ≤ a.toNat ∧ 128 ≤ b.toNat ∧ 128 ≤ a.toNat % 16 * 4096 + b.toNat % 64 * 64 := by
  unfold leadsThree at h
  simp only [Bool.or_eq_true, Bool.and_eq_true, decide_eq_true_eq] at h
  rcases h with ⟨⟨ha, hb⟩, hb'⟩ | ⟨⟨ha, ha'⟩, htail⟩
  · omega
  · obtain ⟨hb, hb'⟩ := le_of_isTail htail
    omega

theorem le_of_leadsFour {a : UInt8} (h : leadsFour a b = true) :
    128 ≤ a.toNat ∧ 128 ≤ b.toNat ∧ 128 ≤ a.toNat % 8 * 262144 + b.toNat % 64 * 4096 := by
  unfold leadsFour at h
  simp only [Bool.or_eq_true, Bool.and_eq_true, decide_eq_true_eq] at h
  rcases h with (⟨⟨ha, hb⟩, hb'⟩ | ⟨⟨ha, ha'⟩, htail⟩) | ⟨⟨ha, hb⟩, hb'⟩
  · omega
  · obtain ⟨hb, hb'⟩ := le_of_isTail htail
    omega
  · omega

/-- The bytes of a text count what the text counts. -/
theorem run_decodeUtf8 {bytes : List UInt8} {text : Text} (h : decodeUtf8 bytes = some text)
    (s : Brackets) : s.run (bytes.map UInt8.toNat) = s.run text := by
  fun_induction decodeUtf8 bytes generalizing text s with
  | case1 =>
    rw [← Option.some.inj h]
    rfl
  | case2 a rest hascii ih =>
    obtain ⟨text', hrest, rfl⟩ := Option.map_eq_some_iff.mp h
    exact ih hrest _
  | case3 => cases h
  | case4 a hhigh b rest hlead ih =>
    obtain ⟨text', hrest, rfl⟩ := Option.map_eq_some_iff.mp h
    obtain ⟨hb, -⟩ := le_of_isTail hlead.2.2
    have hfront : s.run [a.toNat, b.toNat] = s.step (a.toNat % 32 * 64 + b.toNat % 64) := by
      apply run_beyond _ (List.cons_ne_nil _ _)
      · omega
      · intro n hn
        rcases List.mem_cons.mp hn with rfl | hn
        · omega
        · rw [List.mem_singleton.mp hn]
          exact hb
    calc s.run ([a.toNat, b.toNat] ++ rest.map UInt8.toNat)
      _ = (s.run [a.toNat, b.toNat]).run (rest.map UInt8.toNat) := run_append _ _ _
      _ = _ := by rw [hfront, ih hrest]; rfl
  | case5 => cases h
  | case6 a hhigh b htwo d rest hlead ih =>
    obtain ⟨text', hrest, rfl⟩ := Option.map_eq_some_iff.mp h
    obtain ⟨hthree, htail⟩ := Bool.and_eq_true_iff.mp hlead
    obtain ⟨ha, hb, hcode⟩ := le_of_leadsThree hthree
    obtain ⟨hd, -⟩ := le_of_isTail htail
    have hfront : s.run [a.toNat, b.toNat, d.toNat] =
        s.step (a.toNat % 16 * 4096 + b.toNat % 64 * 64 + d.toNat % 64) := by
      apply run_beyond _ (List.cons_ne_nil _ _)
      · exact hcode.trans (Nat.le_add_right _ _)
      · intro n hn
        rcases List.mem_cons.mp hn with rfl | hn
        · exact ha
        rcases List.mem_cons.mp hn with rfl | hn
        · exact hb
        · rw [List.mem_singleton.mp hn]
          exact hd
    calc s.run ([a.toNat, b.toNat, d.toNat] ++ rest.map UInt8.toNat)
      _ = (s.run [a.toNat, b.toNat, d.toNat]).run (rest.map UInt8.toNat) := run_append _ _ _
      _ = _ := by rw [hfront, ih hrest]; rfl
  | case7 => cases h
  | case8 a hhigh b htwo d hthree e rest hlead ih =>
    obtain ⟨text', hrest, rfl⟩ := Option.map_eq_some_iff.mp h
    obtain ⟨hlead, htail'⟩ := Bool.and_eq_true_iff.mp hlead
    obtain ⟨hfour, htail⟩ := Bool.and_eq_true_iff.mp hlead
    obtain ⟨ha, hb, hcode⟩ := le_of_leadsFour hfour
    obtain ⟨hd, -⟩ := le_of_isTail htail
    obtain ⟨he, -⟩ := le_of_isTail htail'
    have hfront : s.run [a.toNat, b.toNat, d.toNat, e.toNat] =
        s.step (a.toNat % 8 * 262144 + b.toNat % 64 * 4096 + d.toNat % 64 * 64 + e.toNat % 64) := by
      apply run_beyond _ (List.cons_ne_nil _ _)
      · exact (hcode.trans (Nat.le_add_right _ _)).trans (Nat.le_add_right _ _)
      · intro n hn
        rcases List.mem_cons.mp hn with rfl | hn
        · exact ha
        rcases List.mem_cons.mp hn with rfl | hn
        · exact hb
        rcases List.mem_cons.mp hn with rfl | hn
        · exact hd
        · rw [List.mem_singleton.mp hn]
          exact he
    calc s.run ([a.toNat, b.toNat, d.toNat, e.toNat] ++ rest.map UInt8.toNat)
      _ = (s.run [a.toNat, b.toNat, d.toNat, e.toNat]).run (rest.map UInt8.toNat) := run_append _ _ _
      _ = _ := by rw [hfront, ih hrest]; rfl
  | case9 => cases h

end Brackets

end Lnpl.Lib.JsonText
