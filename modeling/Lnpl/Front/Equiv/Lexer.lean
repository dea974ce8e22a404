import Lnpl.Front.Lexer

/-!
# Words, numbers and durations are read back as they are printed

`tokens` finds the words of a text that was joined with spaces (`tokens_unwords`), `int` reads a
printed number (`int_toDigits`), and `duration_ms_or_none` a printed duration
(`durationMsOrNone_print`).
-/

namespace Lnpl.Front

/-! ### Words -/

/-- What `split` returns are words. -/
theorem word_of_mem_tokens {text w : String} (hw : w ∈ tokens text) : Word w := by
  obtain ⟨chars, hchars, rfl⟩ := List.mem_map.mp hw
  rw [Word, String.toList_ofList]
  exact Lib.isWord_of_mem_words hchars

@[simp]
theorem tokens_empty : tokens "" = [] := by
  simp [tokens]

/-- A word is split into itself. -/
theorem tokens_word {w : String} (hw : Word w) : tokens w = [w] := by
  rw [tokens, Lib.IsWord.words_eq hw, List.map_singleton, String.ofList_toList]

/-- A space ends the words before it. -/
theorem tokens_append_space (a b : String) : tokens (a ++ " " ++ b) = tokens a ++ tokens b := by
  have hspace : isSpace ' ' = true := by decide
  rw [tokens, String.toList_append, String.toList_append, List.append_assoc,
    show " ".toList = [' '] from rfl, List.singleton_append, Lib.words_append_cons _ _ hspace,
    List.map_append]
  rfl

/-- Words joined by spaces are split into the same words. -/
theorem tokens_unwords {ws : List String} (hws : ∀ w ∈ ws, Word w) : tokens (unwords ws) = ws := by
  have hspace : isSpace ' ' = true := by decide
  have hword : ∀ w ∈ ws.map String.toList, Lib.IsWord isSpace w := by
    intro w hw
    obtain ⟨v, hv, rfl⟩ := List.mem_map.mp hw
    exact hws v hv
  rw [tokens, unwords, String.toList_intercalate, show " ".toList = [' '] from rfl,
    Lib.words_intercalate hword hspace, List.map_map]
  simp [Function.comp_def]

/-! ### Numbers -/

variable (py : Python)

variable {ch : Char} {chars : List Char} {n : Nat}

/-- An ASCII digit has its usual code. -/
theorem toNat_of_isDigit (h : ch.isDigit = true) : 48 ≤ ch.toNat ∧ ch.toNat ≤ 57 := by
  rw [Char.isDigit, Bool.and_eq_true, decide_eq_true_iff, decide_eq_true_iff] at h
  exact ⟨UInt32.le_iff_toNat_le.mp h.1, UInt32.le_iff_toNat_le.mp h.2⟩

theorem isSpace_of_isDigit (h : ch.isDigit = true) : isSpace ch = false := by
  have := toNat_of_isDigit h
  grind [isSpace]

theorem Python.isDigit_of_isDigit (h : ch.isDigit = true) : py.isDigit ch = true := by
  have := toNat_of_isDigit h
  rw [py.isDigit_ascii ch (by omega), h]

/-- On ASCII digits `int` reads the usual decimal value. -/
theorem Python.decimals_ascii (h : ∀ ch ∈ chars, ch.isDigit = true) (n : Nat) :
    py.decimals chars n = some (Nat.ofDigitChars 10 chars n) := by
  induction chars generalizing n with
  | nil => simp [Python.decimals]
  | cons ch chars ih =>
    have hch := py.decimal_ascii ch (h ch List.mem_cons_self)
    have hchars := ih fun x hx => h x (List.mem_cons_of_mem ch hx)
    simp only [Python.decimals, hch, hchars, Nat.ofDigitChars_cons]

theorem isDigit_of_mem_toDigits (h : ch ∈ Nat.toDigits 10 n) : ch.isDigit = true :=
  Nat.isDigit_of_mem_toDigits (by decide) (by decide) h

/-- A number of the 64-bit domain has few digits. -/
theorem length_toDigits_le (hn : n ≤ int64Max) : (Nat.toDigits 10 n).length ≤ intMaxStrDigits := by
  have h := (Nat.length_toDigits_le_iff (b := 10) (n := n) (k := 19) (by decide) (by decide)).mpr
    (by unfold int64Max at hn; omega)
  unfold intMaxStrDigits
  omega

/-- `int` reads a printed number. -/
theorem Python.int_toDigits (hn : n ≤ int64Max) : py.int (Nat.toDigits 10 n) = .ok n := by
  have hlength := length_toDigits_le hn
  have hdigits := py.decimals_ascii (fun _ => isDigit_of_mem_toDigits (n := n)) 0
  rw [Python.int, if_neg (by omega), hdigits, Nat.ofDigitChars_ten_toDigits]

/-- A printed number is all digits. -/
theorem Python.isdigit_toDigits (n : Nat) :
    py.isdigit (String.ofList (Nat.toDigits 10 n)) = true := by
  have hdigits : ∀ ch ∈ Nat.toDigits 10 n, py.isDigit ch = true := fun ch hch =>
    py.isDigit_of_isDigit (isDigit_of_mem_toDigits hch)
  simpa [Python.isdigit, Nat.toDigits_ne_nil] using hdigits

/-! ### Durations -/

@[simp]
theorem stripSuffix_append (chars unit : List Char) :
    stripSuffix unit (chars ++ unit) = some chars := by
  simp [stripSuffix]

/-- No suffix matches if its last character differs. -/
theorem stripSuffix_eq_none {unit : List Char} {x y : Char} (h : x ≠ y) :
    stripSuffix (unit ++ [x]) (chars ++ [y]) = none := by
  have : ¬unit ++ [x] <:+ chars ++ [y] := by
    rintro ⟨front, hfront⟩
    rw [← List.append_assoc] at hfront
    have := (List.append_inj' hfront rfl).2
    simp_all
  simp [stripSuffix, this]

/-- A number of seconds is no number of milliseconds. -/
theorem stripSuffix_ms_s (h : 'm' ∉ chars) : stripSuffix ['m', 's'] (chars ++ ['s']) = none := by
  have : ¬['m', 's'] <:+ chars ++ ['s'] := by
    rintro ⟨front, hfront⟩
    have happend : (front ++ ['m']) ++ ['s'] = chars ++ ['s'] := by simpa using hfront
    apply h
    rw [← (List.append_inj' happend rfl).1]
    simp
  simp [stripSuffix, this]

/-- The value that a duration word is read as fits the 64-bit domain. -/
theorem Python.scanDuration_le {tok : String} {units : List (String × Nat)} {v : Nat}
    (h : py.scanDuration tok units = .ok (some v)) : v ≤ int64Max := by
  induction units with
  | nil => simp [Python.scanDuration] at h
  | cons entry units ih =>
    obtain ⟨unit, mult⟩ := entry
    simp only [Python.scanDuration] at h
    split at h
    · exact ih h
    · split at h
      · split at h
        · exact absurd h (by simp)
        · next n _ =>
          split at h
          · exact absurd h (by simp)
          · have : n * mult = v := by simpa using h
            omega
      · exact ih h

/-- A printed duration is read as its number of milliseconds. -/
theorem Python.durationMsOrNone_print {mult : Nat} {unit : String}
    (hunit : (unit, mult) ∈ durationScan) (hn : n * mult ≤ int64Max) :
    py.durationMsOrNone (toString n ++ unit) = .ok (some (n * mult)) := by
  have hm : 'm' ∉ Nat.toDigits 10 n := fun h => absurd (isDigit_of_mem_toDigits h) (by decide)
  have hdigits := py.isdigit_toDigits n
  have hsmall : n ≤ int64Max := by
    have : 0 < mult := by
      simp only [durationScan, List.mem_cons, Prod.mk.injEq, List.not_mem_nil, or_false] at hunit
      omega
    exact Nat.le_trans (Nat.le_mul_of_pos_right n this) hn
  have hint := py.int_toDigits hsmall
  have htoken : (toString n ++ unit).toList = Nat.toDigits 10 n ++ unit.toList := by
    simp
  have hfit : ¬int64Max < n * mult := by omega
  have hms : stripSuffix ['m', 's'] (Nat.toDigits 10 n ++ ['s']) = none := stripSuffix_ms_s hm
  have hnone (front : List Char) {x y : Char} (h : x ≠ y) :
      stripSuffix (front ++ [x]) (Nat.toDigits 10 n ++ [y]) = none := stripSuffix_eq_none h
  -- the units tried before the printed one do not match
  simp only [durationScan, List.mem_cons, Prod.mk.injEq, List.not_mem_nil, or_false] at hunit
  simp only [Python.durationMsOrNone, durationScan, Python.scanDuration, htoken]
  rcases hunit with ⟨rfl, rfl⟩ | ⟨rfl, rfl⟩ | ⟨rfl, rfl⟩ | ⟨rfl, rfl⟩ | ⟨rfl, rfl⟩
  · rw [Nat.mul_one] at hfit
    simp [hdigits, hint, hfit]
  · simp [hms, hdigits, hint, hfit]
  · have h1 := hnone ['m'] (x := 's') (y := 'm') (by decide)
    have h2 := hnone [] (x := 's') (y := 'm') (by decide)
    simp at h1 h2
    simp [h1, h2, hdigits, hint, hfit]
  · have h1 := hnone ['m'] (x := 's') (y := 'h') (by decide)
    have h2 := hnone [] (x := 's') (y := 'h') (by decide)
    have h3 := hnone [] (x := 'm') (y := 'h') (by decide)
    simp at h1 h2 h3
    simp [h1, h2, h3, hdigits, hint, hfit]
  · have h1 := hnone ['m'] (x := 's') (y := 'd') (by decide)
    have h2 := hnone [] (x := 's') (y := 'd') (by decide)
    have h3 := hnone [] (x := 'm') (y := 'd') (by decide)
    have h4 := hnone [] (x := 'h') (y := 'd') (by decide)
    simp at h1 h2 h3 h4
    simp [h1, h2, h3, h4, hdigits, hint, hfit]

end Lnpl.Front
