import Mathlib.Data.List.Basic

/-!
# URL-safe base64

`base64.urlsafe_b64encode` and `base64.urlsafe_b64decode`, the second with the leniency of
`binascii.a2b_base64`: characters outside the alphabet are passed over, and a complete padding ends
the reading.  A text whose padding was stripped is padded again before it is read
(`decode_pad_strip`).
-/

namespace Lnpl.Lib.Base64

/-- The character of a sextet. -/
def letter (n : Nat) : Char :=
  if n < 26 then Char.ofNat (n + 65)
  else if n < 52 then Char.ofNat (n + 71)
  else if n < 62 then Char.ofNat (n - 4)
  else if n = 62 then '-'
  else '_'

/-- The sextet of a character, after `-` and `_` were translated to `+` and `/`. -/
def sextet (ch : Char) : Option Nat :=
  if 65 ≤ ch.toNat ∧ ch.toNat ≤ 90 then some (ch.toNat - 65)
  else if 97 ≤ ch.toNat ∧ ch.toNat ≤ 122 then some (ch.toNat - 71)
  else if 48 ≤ ch.toNat ∧ ch.toNat ≤ 57 then some (ch.toNat + 4)
  else if ch = '-' ∨ ch = '+' then some 62
  else if ch = '_' ∨ ch = '/' then some 63
  else none

/-- `urlsafe_b64encode`. -/
def encode : List UInt8 → List Char
  | [] => []
  | [a] => [letter (a.toNat / 4), letter (a.toNat % 4 * 16), '=', '=']
  | [a, b] =>
    [letter (a.toNat / 4), letter (a.toNat % 4 * 16 + b.toNat / 16), letter (b.toNat % 16 * 4), '=']
  | a :: b :: d :: bytes =>
    letter (a.toNat / 4) :: letter (a.toNat % 4 * 16 + b.toNat / 16) ::
      letter (b.toNat % 16 * 4 + d.toNat / 64) :: letter (d.toNat % 64) :: encode bytes

/-- `binascii.Error`. -/
inductive Error where
  /-- one data character more than a multiple of four -/
  | dataCharacters
  | incorrectPadding
  deriving DecidableEq, Repr

/-- The loop of `a2b_base64`: `quadPos` data characters of the quad were read, of which `leftchar`
is not yet written, and `pads` padding characters after them. -/
def a2b : List Char → Nat → Nat → Nat → Except Error (List UInt8)
  | [], quadPos, _, _ =>
    if quadPos = 0 then .ok []
    else if quadPos = 1 then .error .dataCharacters
    else .error .incorrectPadding
  | ch :: text, quadPos, leftchar, pads =>
    if ch = '=' then
      if 2 ≤ quadPos then
        if 4 ≤ quadPos + (pads + 1) then .ok [] else a2b text quadPos leftchar (pads + 1)
      else a2b text quadPos leftchar pads
    else
      match sextet ch with
      | none => a2b text quadPos leftchar pads
      | some d =>
        match quadPos with
        | 0 => a2b text 1 d 0
        | 1 => (a2b text 2 (d % 16) 0).map (UInt8.ofNat (leftchar * 4 + d / 16) :: ·)
        | 2 => (a2b text 3 (d % 4) 0).map (UInt8.ofNat (leftchar * 16 + d / 4) :: ·)
        | _ => (a2b text 0 0 0).map (UInt8.ofNat (leftchar * 64 + d) :: ·)

/-- `urlsafe_b64decode`. -/
def decode (text : List Char) : Except Error (List UInt8) := a2b text 0 0 0

/-- `text.rstrip("=")`. -/
def strip (text : List Char) : List Char := (text.reverse.dropWhile (· = '=')).reverse

/-- `text + "=" * (-len(text) % 4)`. -/
def pad (text : List Char) : List Char :=
  text ++ List.replicate ((4 - text.length % 4) % 4) '='

/-! ### The alphabet -/

variable {n : Nat}

section

variable (h : n < 64)
include h

theorem sextet_letter : sextet (letter n) = some n ∧ letter n ≠ '=' := by
  have hall : ∀ n : Fin 64, sextet (letter n) = some n.val ∧ letter n ≠ '=' := by decide
  exact hall ⟨n, h⟩

/-- A letter is an ASCII character other than the padding. -/
theorem letter_ascii : letter n ≠ '=' ∧ (letter n).toNat < 128 := by
  have hall : ∀ n : Fin 64, letter n ≠ '=' ∧ (letter n).toNat < 128 := by decide
  exact hall ⟨n, h⟩

/-! A letter is read as the data character that its place in the quad makes it. -/

section

variable (text : List Char)
include text

theorem a2b_letter (quadPos leftchar pads : Nat) :
    a2b (letter n :: text) quadPos leftchar pads =
      match quadPos with
      | 0 => a2b text 1 n 0
      | 1 => (a2b text 2 (n % 16) 0).map (UInt8.ofNat (leftchar * 4 + n / 16) :: ·)
      | 2 => (a2b text 3 (n % 4) 0).map (UInt8.ofNat (leftchar * 16 + n / 4) :: ·)
      | _ => (a2b text 0 0 0).map (UInt8.ofNat (leftchar * 64 + n) :: ·) := by
  obtain ⟨hsextet, hne⟩ := sextet_letter h
  rw [a2b, if_neg hne, hsextet]

section

variable (leftchar pads : Nat)
include leftchar

theorem a2b_first : a2b (letter n :: text) 0 leftchar pads = a2b text 1 n 0 :=
  a2b_letter h text 0 leftchar pads

theorem a2b_second :
    a2b (letter n :: text) 1 leftchar pads =
      (a2b text 2 (n % 16) 0).map (UInt8.ofNat (leftchar * 4 + n / 16) :: ·) :=
  a2b_letter h text 1 leftchar pads

theorem a2b_third :
    a2b (letter n :: text) 2 leftchar pads =
      (a2b text 3 (n % 4) 0).map (UInt8.ofNat (leftchar * 16 + n / 4) :: ·) :=
  a2b_letter h text 2 leftchar pads

theorem a2b_fourth :
    a2b (letter n :: text) 3 leftchar pads =
      (a2b text 0 0 0).map (UInt8.ofNat (leftchar * 64 + n) :: ·) :=
  a2b_letter h text 3 leftchar pads

end

end

end

theorem ofNat_eq {a : UInt8} (h : n = a.toNat) : UInt8.ofNat n = a := by
  rw [h, UInt8.ofNat_toNat]

/-- No letter is a point. -/
theorem letter_ne_point (h : n < 64) : letter n ≠ '.' := by
  have hall : ∀ n : Fin 64, letter n ≠ '.' := by decide
  exact hall ⟨n, h⟩

/-! ### The round trip -/

theorem decode_encode (bytes : List UInt8) : decode (encode bytes) = .ok bytes := by
  rw [decode]
  induction bytes using encode.induct with
  | case1 => rfl
  | case2 a =>
    have ha := a.toNat_lt
    rw [encode, a2b_first (by omega), a2b_second (by omega), ofNat_eq (a := a) (by omega)]
    rfl
  | case3 a b =>
    have ha := a.toNat_lt
    have hb := b.toNat_lt
    rw [encode, a2b_first (by omega), a2b_second (by omega), a2b_third (by omega),
      ofNat_eq (a := a) (by omega), ofNat_eq (a := b) (by omega)]
    rfl
  | case4 a b d bytes ih =>
    have ha := a.toNat_lt
    have hb := b.toNat_lt
    have hd := d.toNat_lt
    rw [encode, a2b_first (by omega), a2b_second (by omega), a2b_third (by omega),
      a2b_fourth (by omega), ih, ofNat_eq (a := a) (by omega), ofNat_eq (a := b) (by omega),
      ofNat_eq (a := d) (by omega)]
    rfl

/-- A base64 text without its padding, and the padding. -/
theorem encode_eq (bytes : List UInt8) :
    ∃ bare, encode bytes = pad bare ∧ ∀ ch ∈ bare, ch ≠ '=' ∧ ch.toNat < 128 := by
  induction bytes using encode.induct with
  | case1 => exact ⟨[], rfl, fun _ h => nomatch h⟩
  | case2 a =>
    have ha := a.toNat_lt
    refine ⟨[letter (a.toNat / 4), letter (a.toNat % 4 * 16)], rfl, ?_⟩
    intro ch hch
    simp only [List.mem_cons, List.not_mem_nil, or_false] at hch
    rcases hch with rfl | rfl
    · exact letter_ascii (by omega)
    · exact letter_ascii (by omega)
  | case3 a b =>
    have ha := a.toNat_lt
    have hb := b.toNat_lt
    refine ⟨[letter (a.toNat / 4), letter (a.toNat % 4 * 16 + b.toNat / 16),
      letter (b.toNat % 16 * 4)], rfl, ?_⟩
    intro ch hch
    simp only [List.mem_cons, List.not_mem_nil, or_false] at hch
    rcases hch with rfl | rfl | rfl
    · exact letter_ascii (by omega)
    · exact letter_ascii (by omega)
    · exact letter_ascii (by omega)
  | case4 a b d bytes ih =>
    have ha := a.toNat_lt
    have hb := b.toNat_lt
    have hd := d.toNat_lt
    obtain ⟨bare, hbare, hne⟩ := ih
    refine ⟨letter (a.toNat / 4) :: letter (a.toNat % 4 * 16 + b.toNat / 16) ::
      letter (b.toNat % 16 * 4 + d.toNat / 64) :: letter (d.toNat % 64) :: bare, ?_, ?_⟩
    · rw [encode, hbare]
      simp only [pad, List.length_cons, List.cons_append]
      rw [Nat.add_assoc, Nat.add_assoc, Nat.add_assoc, Nat.add_mod_right]
    · intro ch hch
      simp only [List.mem_cons] at hch
      rcases hch with rfl | rfl | rfl | rfl | hch
      · exact letter_ascii (by omega)
      · exact letter_ascii (by omega)
      · exact letter_ascii (by omega)
      · exact letter_ascii (by omega)
      · exact hne ch hch

theorem strip_pad {bare : List Char} (h : ∀ ch ∈ bare, ch ≠ '=') : strip (pad bare) = bare := by
  have hdrop : bare.reverse.dropWhile (· = '=') = bare.reverse := by
    cases hrev : bare.reverse with
    | nil => rfl
    | cons ch text =>
      have hch : ch ≠ '=' := h ch (List.mem_reverse.mp (hrev ▸ List.mem_cons_self))
      rw [List.dropWhile_cons, decide_eq_false hch]
      rfl
  rw [strip, pad, List.reverse_append, List.dropWhile_append_of_pos, hdrop, List.reverse_reverse]
  intro ch hch
  rw [List.reverse_replicate] at hch
  exact decide_eq_true (List.eq_of_mem_replicate hch)

/-- **Round trip** of a text without its padding. -/
theorem decode_pad_strip (bytes : List UInt8) :
    decode (pad (strip (encode bytes))) = .ok bytes := by
  obtain ⟨bare, hbare, hne⟩ := encode_eq bytes
  rw [hbare, strip_pad fun ch hch => (hne ch hch).1, ← hbare, decode_encode]

/-- A base64 text is ASCII. -/
theorem ascii_of_mem_strip {bytes : List UInt8} {ch : Char} (h : ch ∈ strip (encode bytes)) :
    ch.toNat < 128 := by
  obtain ⟨bare, hbare, hne⟩ := encode_eq bytes
  rw [hbare, strip_pad fun ch hch => (hne ch hch).1] at h
  exact (hne ch h).2

theorem point_not_mem_encode (bytes : List UInt8) : '.' ∉ encode bytes := by
  induction bytes using encode.induct with
  | case1 => exact List.not_mem_nil
  | case2 a =>
    have ha := a.toNat_lt
    have hfirst : '.' ≠ letter (a.toNat / 4) := (letter_ne_point (by omega)).symm
    have hsecond : '.' ≠ letter (a.toNat % 4 * 16) := (letter_ne_point (by omega)).symm
    simp [encode, hfirst, hsecond]
  | case3 a b =>
    have ha := a.toNat_lt
    have hb := b.toNat_lt
    have hfirst : '.' ≠ letter (a.toNat / 4) := (letter_ne_point (by omega)).symm
    have hsecond : '.' ≠ letter (a.toNat % 4 * 16 + b.toNat / 16) :=
      (letter_ne_point (by omega)).symm
    have hthird : '.' ≠ letter (b.toNat % 16 * 4) := (letter_ne_point (by omega)).symm
    simp [encode, hfirst, hsecond, hthird]
  | case4 a b d bytes ih =>
    have ha := a.toNat_lt
    have hb := b.toNat_lt
    have hd := d.toNat_lt
    have hfirst : '.' ≠ letter (a.toNat / 4) := (letter_ne_point (by omega)).symm
    have hsecond : '.' ≠ letter (a.toNat % 4 * 16 + b.toNat / 16) :=
      (letter_ne_point (by omega)).symm
    have hthird : '.' ≠ letter (b.toNat % 16 * 4 + d.toNat / 64) :=
      (letter_ne_point (by omega)).symm
    have hfourth : '.' ≠ letter (d.toNat % 64) := (letter_ne_point (by omega)).symm
    simp [encode, hfirst, hsecond, hthird, hfourth, ih]

/-- A base64 text holds no point. -/
theorem point_not_mem_strip (bytes : List UInt8) : '.' ∉ strip (encode bytes) := by
  intro hmem
  have hrev := List.dropWhile_subset _ (List.mem_reverse.mp hmem)
  exact point_not_mem_encode bytes (List.mem_reverse.mp hrev)

end Lnpl.Lib.Base64
