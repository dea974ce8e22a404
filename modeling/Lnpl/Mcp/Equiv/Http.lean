import Lnpl.Mcp.Http

/-!
# Exactness of the nesting guard

The loop of `_exceeds_max_nesting` counts the brackets of the bytes, and these are the brackets of
the text that the bytes decode to.
-/

namespace Lnpl.Mcp

open Lib.JsonText (Text Brackets Deepens)
open Lib.JsonText.Brackets (outside)

/-- What the loop has counted. -/
def NestingScan.brackets (s : NestingScan) : Brackets :=
  ⟨s.depth, s.maxDepth, s.inString, s.escapeNext⟩

/-- The byte of an ASCII character is its code point. -/
theorem toNat_eq_iff {byte : UInt8} {ch : Char} {n : UInt8} (hn : n.toNat = ch.toNat) :
    byte.toNat = ch.toNat ↔ byte = n := by
  rw [← hn]
  exact UInt8.toNat_inj

/-- What one byte counts is what its code point counts. -/
theorem step_brackets (s : NestingScan) (byte : UInt8) : s.brackets.step byte.toNat =
    if s.inString then
      if s.escapeNext then { s.brackets with escapeNext := false }
      else if byte = 0x5c then { s.brackets with escapeNext := true }
      else if byte = 0x22 then { s.brackets with inString := false }
      else s.brackets
    else if byte = 0x22 then { s.brackets with inString := true }
    else if byte = 0x7b ∨ byte = 0x5b then { s.brackets with
      depth := s.depth + 1
      maxDepth := max s.maxDepth (s.depth + 1) }
    else if byte = 0x7d ∨ byte = 0x5d then { s.brackets with depth := s.depth - 1 }
    else s.brackets := by
  have hslash : byte.toNat = '\\'.toNat ↔ byte = 0x5c := toNat_eq_iff rfl
  have hquote : byte.toNat = '"'.toNat ↔ byte = 0x22 := toNat_eq_iff rfl
  have hbrace : byte.toNat = '\x7b'.toNat ↔ byte = 0x7b := toNat_eq_iff rfl
  have hbracket : byte.toNat = '['.toNat ↔ byte = 0x5b := toNat_eq_iff rfl
  have hbrace' : byte.toNat = '\x7d'.toNat ↔ byte = 0x7d := toNat_eq_iff rfl
  have hbracket' : byte.toNat = ']'.toNat ↔ byte = 0x5d := toNat_eq_iff rfl
  unfold Brackets.step
  simp only [hslash, hquote, hbrace, hbracket, hbrace', hbracket']
  rfl

/-- **The loop** answers whether the brackets of the bytes count more than the limit. -/
theorem exceedsFrom_eq (limit : Int) (data : List UInt8) (s : NestingScan) :
    exceedsFrom limit s data =
      decide (limit < ((s.brackets.run (data.map UInt8.toNat)).maxDepth : Int)) := by
  induction data generalizing s with
  | nil => rfl
  | cons byte data ih =>
    unfold exceedsFrom
    rw [List.map_cons, Brackets.run_cons, step_brackets]
    by_cases hstring : s.inString = true
    · rw [if_pos hstring, if_pos hstring]
      by_cases hescape : s.escapeNext = true
      · rw [if_pos hescape, if_pos hescape]
        exact ih _
      rw [if_neg hescape, if_neg hescape]
      by_cases hslash : byte = 0x5c
      · rw [if_pos hslash, if_pos hslash]
        exact ih _
      rw [if_neg hslash, if_neg hslash]
      by_cases hquote : byte = 0x22
      · rw [if_pos hquote, if_pos hquote]
        exact ih _
      rw [if_neg hquote, if_neg hquote]
      exact ih _
    rw [if_neg hstring, if_neg hstring]
    by_cases hquote : byte = 0x22
    · rw [if_pos hquote, if_pos hquote]
      exact ih _
    rw [if_neg hquote, if_neg hquote]
    by_cases hopen : byte = 0x7b ∨ byte = 0x5b
    · rw [if_pos hopen, if_pos hopen]
      dsimp only
      by_cases hdeeper : s.depth + 1 > s.maxDepth
      · rw [if_pos hdeeper, Nat.max_eq_right (Nat.le_of_lt hdeeper)]
        by_cases hlimit : ((s.depth + 1 : Nat) : Int) > limit
        · -- what is reached stays, so the rest need not be read
          rw [if_pos hlimit]
          have hle := Brackets.maxDepth_le_run
            ⟨s.depth + 1, s.depth + 1, s.inString, s.escapeNext⟩ (data.map UInt8.toNat)
          exact (decide_eq_true (Int.lt_of_lt_of_le hlimit (Int.ofNat_le.mpr hle))).symm
        · rw [if_neg hlimit]
          exact ih _
      · rw [if_neg hdeeper, Nat.max_eq_left (Nat.le_of_not_lt hdeeper)]
        exact ih _
    rw [if_neg hopen, if_neg hopen]
    by_cases hclose : byte = 0x7d ∨ byte = 0x5d
    · rw [if_pos hclose, if_pos hclose]
      by_cases hdepth : s.depth > 0
      · rw [if_pos hdepth]
        exact ih _
      · rw [if_neg hdepth]
        have hzero : s.depth - 1 = s.depth := by omega
        rw [hzero]
        exact ih s
    rw [if_neg hclose, if_neg hclose]
    exact ih s

theorem exceedsMaxNesting_eq (data : List UInt8) (limit : Int) : exceedsMaxNesting data limit =
    decide (limit < (((outside 0 0).run (data.map UInt8.toNat)).maxDepth : Int)) :=
  exceedsFrom_eq limit data ⟨0, 0, false, false⟩

/-- The brackets of the bytes are those of the text. -/
theorem exceedsMaxNesting_decode {data : List UInt8} {text : Text} (h : decode data = some text)
    (limit : Int) : exceedsMaxNesting data limit =
      decide (limit < (((outside 0 0).run text).maxDepth : Int)) := by
  have hdecode := (Option.filter_eq_some_iff.mp h).1
  rw [exceedsMaxNesting_eq, Brackets.run_decodeUtf8 hdecode]

/-- What is too deep for a parser is too deep for the guard. -/
theorem lt_of_deepens {room : Nat} {text : Text} (h : Deepens room text) {limit : Int}
    (hroom : limit ≤ room) : limit < (((outside 0 0).run text).maxDepth : Int) := by
  have hdepth := h 0 0 (Nat.le_refl 0)
  omega

/-- **The nesting guard is exact.** -/
theorem guardsNesting (data : List UInt8) (limit : Int) : GuardsNesting data limit where
  exact text room value hdecode hloads := by
    obtain ⟨shape, hshape, hrun⟩ := Lib.JsonText.brackets_of_loadsText hloads
    refine ⟨shape, hshape, ?_⟩
    rw [exceedsMaxNesting_decode hdecode, hrun]
    exact decide_eq_true_iff
  bounds hguard room hroom := by
    constructor
    · intro text hdecode hloads
      rw [exceedsMaxNesting_decode hdecode] at hguard
      exact of_decide_eq_false hguard (lt_of_deepens (Lib.JsonText.deepens_of_loadsText hloads) hroom)
    · intro hscan
      rw [exceedsMaxNesting_eq] at hguard
      have hdeepens := Lib.JsonText.deepens_of_skipSpace
        (Lib.JsonText.deepens_of_recursionError hscan)
      exact of_decide_eq_false hguard (lt_of_deepens hdeepens hroom)

end Lnpl.Mcp
