import Lnpl.Lib.JsonText
import Lnpl.Lib.Words

/-!
# White space, line breaks and UTF-16

What `str.split`, `str.strip` and `str.splitlines` make of a str, which is a list of code points,
and how many code units of UTF-16 it has.
-/

namespace Lnpl.Lib.PyText

open JsonText (Text)

/-! ### White space -/

/-- `ch.isspace()`. -/
def isWhite (code : Nat) : Bool :=
  (9 ≤ code && code ≤ 13) || (28 ≤ code && code ≤ 32) || code = 0x85 || code = 0xa0 ||
    code = 0x1680 || (0x2000 ≤ code && code ≤ 0x200a) || code = 0x2028 || code = 0x2029 ||
    code = 0x202f || code = 0x205f || code = 0x3000

/-- `text.lstrip()`. -/
def lstrip (text : Text) : Text := text.dropWhile isWhite

/-- `text.rstrip()`. -/
def rstrip (text : Text) : Text := (text.reverse.dropWhile isWhite).reverse

/-- `text.strip()`. -/
def strip (text : Text) : Text := rstrip (lstrip text)

/-- `text.split()`. -/
def split (text : Text) : List Text := words isWhite text

/-! ### Lines -/

theorem cr_ne_lf : 13 ≠ 10 := by decide

/-- What `str.splitlines` breaks at. -/
def lineBreaks : Breaks Nat where
  cr := 13
  lf := 10
  isBreak code := (10 ≤ code && code ≤ 13) || (28 ≤ code && code ≤ 30) || code = 0x85 ||
    code = 0x2028 || code = 0x2029
  cr_ne_lf := cr_ne_lf
  isBreak_cr := rfl
  isBreak_lf := rfl

/-- `text.splitlines()`. -/
def splitlines (text : Text) : List Text := (lineBreaks.lines text).map lineBreaks.content

/-! ### Code units -/

def isSurrogate (code : Nat) : Bool := 0xd800 ≤ code && code ≤ 0xdfff

/-- The code units of a code point; a lone surrogate counts as one. -/
def units (code : Nat) : Nat := if 0x10000 ≤ code then 2 else 1

theorem units_pos (code : Nat) : 0 < units code := by
  unfold units
  split <;> omega

/-- `len(text.encode("utf-16-le")) // 2`, `none` for the `UnicodeEncodeError`. -/
def utf16Len (text : Text) : Option Nat :=
  if text.any isSurrogate then none else some (text.map units).sum

/-! ### Words of a stripped text -/

theorem exists_lstrip (text : Text) :
    ∃ white, text = white ++ lstrip text ∧ ∀ code ∈ white, isWhite code = true :=
  ⟨text.takeWhile isWhite, List.takeWhile_append_dropWhile.symm,
    fun _ h => List.mem_takeWhile_imp h⟩

theorem exists_rstrip (text : Text) :
    ∃ white, text = rstrip text ++ white ∧ ∀ code ∈ white, isWhite code = true := by
  refine ⟨(text.reverse.takeWhile isWhite).reverse, ?_, fun code h => ?_⟩
  · rw [rstrip, ← List.reverse_append, List.takeWhile_append_dropWhile, List.reverse_reverse]
  · exact List.mem_takeWhile_imp (List.mem_reverse.mp h)

theorem words_white_append {white : Text} (h : ∀ code ∈ white, isWhite code = true) (text : Text) :
    words isWhite (white ++ text) = words isWhite text := by
  induction white with
  | nil => rfl
  | cons code white ih =>
    rw [List.cons_append, words_cons_of_pos (h code List.mem_cons_self)]
    exact ih fun other hother => h other (List.mem_cons_of_mem _ hother)

theorem words_append_white {white : Text} (h : ∀ code ∈ white, isWhite code = true) (text : Text) :
    words isWhite (text ++ white) = words isWhite text := by
  cases white with
  | nil => rw [List.append_nil]
  | cons code white =>
    have hrest := words_white_append
      (fun other hother => h other (List.mem_cons_of_mem code hother)) []
    rw [List.append_nil, words_nil] at hrest
    rw [words_append_cons text white (h code List.mem_cons_self), hrest, List.append_nil]

/-- White space around a text is in none of its words. -/
theorem split_strip (text : Text) : split (strip text) = split text := by
  obtain ⟨front, hfront, hwhite⟩ := exists_lstrip text
  obtain ⟨back, hback, hwhite'⟩ := exists_rstrip (lstrip text)
  have hinner : words isWhite (lstrip text) = words isWhite (strip text) := by
    rw [hback]
    exact words_append_white hwhite' _
  calc split (strip text) = words isWhite (lstrip text) := hinner.symm
    _ = words isWhite (front ++ lstrip text) := (words_white_append hwhite _).symm
    _ = split text := by rw [← hfront, split]

end Lnpl.Lib.PyText
