import Lnpl.Lsp.Positions

/-!
# Exactness of the editor positions

Where `_line_span` answers a range, the editor finds in it the token that the compiler names, and
it answers one if and only if no lone surrogate stands before the end of the range on its line.
-/

namespace Lnpl.Lsp

open Lib (Breaks wordsAt)
open Lib.JsonText (Text)
open Lib.PyText (isWhite isSurrogate lstrip rstrip strip split lineBreaks units utf16Len)

/-! ### The line of a number -/

/-- A text is cut here where neither way to break it has a break. -/
abbrev Cut (before after : Text) : Prop := ¬lspBreaks.Straddles before after

variable {before text body : Text}

/-- A text of the line cuts it at both ends. -/
theorem cut_of_clean {clean : Text} (after : Text)
    (hclean : ∀ code ∈ clean, lineBreaks.isBreak code = false) (h : Cut before (clean ++ after)) :
    Cut (before ++ clean) after := by
  rintro ⟨hlast, hfirst⟩
  rw [List.getLast?_append] at hlast
  cases hback : clean.getLast? with
  | none =>
    have hnil := List.getLast?_eq_none_iff.mp hback
    rw [hback] at hlast
    rw [hnil, List.nil_append] at h
    exact h ⟨hlast, hfirst⟩
  | some code =>
    rw [hback] at hlast
    have hcode := hclean code (List.mem_of_getLast? hback)
    rw [Option.some.inj hlast] at hcode
    cases hcode

/-- **The line**: its text stands at its offset, has no break, and is cut off from what is before
it. -/
theorem lineBody_split {lineno : Int} {base : Nat} (h : lineBody text lineno = some (base, body)) :
    ∃ before after, text = before ++ (body ++ after) ∧ before.length = base ∧
      (∀ code ∈ body, lineBreaks.isBreak code = false) ∧ Cut before (body ++ after) := by
  unfold lineBody at h
  split at h
  · cases h
  · obtain ⟨part, hpart, heq⟩ := Option.map_eq_some_iff.mp h
    obtain ⟨hbase, hbody⟩ := Prod.mk.inj heq
    obtain ⟨hlt, hget⟩ := List.getElem?_eq_some_iff.mp hpart
    have hlines := lineBreaks.flatten_lines text
    have hcut := lineBreaks.not_straddles_lines text (lineno.toNat - 1)
    rw [← List.take_append_drop (lineno.toNat - 1) (lineBreaks.lines text), List.flatten_append]
      at hlines
    rw [List.drop_eq_getElem_cons hlt, hget, List.flatten_cons] at hlines hcut
    have hsplit : ∃ rest, part = body ++ rest := by
      refine ⟨(lineBreaks.content part).dropWhile (· ≠ '#'.toNat) ++
        part.dropWhile fun code => !lineBreaks.isBreak code, ?_⟩
      rw [← hbody, stripComment, ← List.append_assoc, List.takeWhile_append_dropWhile,
        Breaks.content, List.takeWhile_append_dropWhile]
    obtain ⟨rest, rfl⟩ := hsplit
    rw [List.append_assoc] at hlines hcut
    refine ⟨_, _, hlines.symm, ?_, fun code hcode => ?_, hcut⟩
    · rw [List.length_flatten, hbase]
    · rw [← hbody] at hcode
      have hcontent := List.mem_takeWhile_imp (List.takeWhile_subset _ hcode)
      simpa using hcontent

/-! ### The span -/

theorem strip_of_white (h : ∀ code ∈ text, isWhite code = true) : strip text = [] := by
  have hnil : lstrip text = [] := List.dropWhile_eq_nil_iff.mpr h
  rw [strip, hnil]
  rfl

/-- Where a text is not blank, what `lstrip` removes ends before what `rstrip` removes. -/
theorem indent_le (h : strip body ≠ []) :
    body.length - (lstrip body).length ≤ (rstrip body).length := by
  obtain ⟨front, hfront, hwhite⟩ := Lib.PyText.exists_lstrip body
  obtain ⟨back, hback, hwhite'⟩ := Lib.PyText.exists_rstrip body
  have hlength : body.length = front.length + (lstrip body).length := by
    conv_lhs => rw [hfront, List.length_append]
  by_contra hlt
  refine h (strip_of_white fun code hcode => ?_)
  have htake : rstrip body <+: front :=
    List.prefix_of_prefix_length_le ⟨back, hback.symm⟩ ⟨lstrip body, hfront.symm⟩ (by omega)
  rw [hback] at hcode
  rcases List.mem_append.mp hcode with hcode | hcode
  · exact hwhite code (htake.subset hcode)
  · exact hwhite' code hcode

/-- A part of a text that stands between two offsets. -/
structure Between (text : Text) (start stop : Nat) (before inner after : Text) : Prop where
  split : text = before ++ (inner ++ after)
  start : before.length = start
  stop : before.length + inner.length = stop
  clean : ∀ code ∈ inner, lspBreaks.isBreak code = false
  cut : Cut before (inner ++ after)
  cut' : Cut (before ++ inner) after

theorem lspBreaks_of_lineBreaks {code : Nat} (h : lineBreaks.isBreak code = false) :
    lspBreaks.isBreak code = false := by
  simp only [lineBreaks, lspBreaks, Bool.or_eq_false_iff, Bool.and_eq_false_iff,
    decide_eq_false_iff_not] at h ⊢
  omega

/-- What stands in the line, in front of a part of it and behind it. -/
theorem between_of_body {text before after front inner back : Text}
    (htext : text = before ++ (front ++ inner ++ back ++ after))
    (hclean : ∀ code ∈ front ++ inner ++ back, lineBreaks.isBreak code = false)
    (hcut : Cut before (front ++ inner ++ back ++ after)) :
    Between text (before.length + front.length) (before.length + front.length + inner.length)
      (before ++ front) inner (back ++ after) := by
  have hfront : ∀ code ∈ front, lineBreaks.isBreak code = false :=
    fun code hcode => hclean code (by simp [hcode])
  have hinner : ∀ code ∈ inner, lineBreaks.isBreak code = false :=
    fun code hcode => hclean code (by simp [hcode])
  have hcutFront : Cut (before ++ front) (inner ++ (back ++ after)) := by
    refine cut_of_clean _ hfront ?_
    simpa only [List.append_assoc] using hcut
  refine ⟨by rw [htext]; simp only [List.append_assoc], List.length_append,
    by rw [List.length_append], fun code hcode => lspBreaks_of_lineBreaks (hinner code hcode),
    hcutFront, cut_of_clean _ hinner hcutFront⟩

variable {lineno : Option Int} {subject : Option Text} {start stop : Nat} {range : Range}

/-- What `_line_span` finds stands between its offsets. -/
theorem span_between (h : span text lineno subject = some (start, stop)) :
    ∃ before inner after, Between text start stop before inner after := by
  unfold span at h
  cases lineno with
  | none => cases h
  | some lineno =>
    cases hbody : lineBody text lineno with
    | none =>
      simp [hbody] at h
    | some found =>
      obtain ⟨base, body⟩ := found
      obtain ⟨before, after, htext, hbase, hclean, hcut⟩ := lineBody_split hbody
      simp only [Option.bind_eq_bind, Option.bind_some, hbody] at h
      split at h
      · cases h
      · next hblank =>
        split at h
        · next place word hfind =>
          obtain ⟨front, back, hsplit, hplace⟩ :=
            Lib.split_of_mem_wordsAt (List.mem_of_find?_eq_some hfind)
          obtain ⟨rfl, rfl⟩ := Prod.mk.inj (Option.some.inj h)
          rw [Nat.zero_add] at hplace
          rw [hsplit] at htext hclean hcut
          rw [← hbase, hplace]
          exact ⟨_, _, _, between_of_body htext hclean hcut⟩
        · obtain ⟨rfl, rfl⟩ := Prod.mk.inj (Option.some.inj h)
          have hindent := indent_le hblank
          obtain ⟨back, hback, -⟩ := Lib.PyText.exists_rstrip body
          have hfront : rstrip body =
              (rstrip body).take (body.length - (lstrip body).length) ++
                (rstrip body).drop (body.length - (lstrip body).length) :=
            (List.take_append_drop _ _).symm
          have hsplit : body = (rstrip body).take (body.length - (lstrip body).length) ++
              (rstrip body).drop (body.length - (lstrip body).length) ++ back := by
            rw [← hfront]
            exact hback
          have hbetween := @between_of_body text before after
            ((rstrip body).take (body.length - (lstrip body).length))
            ((rstrip body).drop (body.length - (lstrip body).length)) back
            (hsplit ▸ htext) (hsplit ▸ hclean) (hsplit ▸ hcut)
          rw [List.length_take_of_le hindent, List.length_drop] at hbetween
          have hstop : before.length + (body.length - (lstrip body).length) +
              ((rstrip body).length - (body.length - (lstrip body).length)) =
                base + (rstrip body).length := by omega
          rw [hstop, hbase] at hbetween
          exact ⟨_, _, _, hbetween⟩

/-! ### Positions -/

/-- The position behind a text is found iff no lone surrogate is in its last line. -/
theorem lspPosition_append (before after : Text) :
    lspPosition (before ++ after) before.length =
      if (before.drop (lspBreaks.lastStart before)).any isSurrogate then none
      else some ⟨(lspBreaks.ends 0 before).length,
        ((before.drop (lspBreaks.lastStart before)).map units).sum⟩ := by
  unfold lspPosition utf16Len
  rw [List.take_left]
  dsimp only
  split <;> rfl

/-- **A position** reads back as the offset that it is made from. -/
theorem editorOffset_lspPosition {after : Text} (hcut : Cut before after) {position : Position}
    (h : lspPosition (before ++ after) before.length = some position) :
    editorOffset (before ++ after) position = some before.length := by
  rw [lspPosition_append] at h
  split at h
  · cases h
  · rw [← Option.some.inj h]
    exact lspBreaks.offset_position Lib.PyText.units_pos hcut

/-- A text without a break stays on the line. -/
theorem lastStart_append {inner : Text} (hcut : Cut before inner)
    (hclean : ∀ code ∈ inner, lspBreaks.isBreak code = false) :
    (before ++ inner).drop (lspBreaks.lastStart (before ++ inner)) =
      before.drop (lspBreaks.lastStart before) ++ inner := by
  have hnone := lspBreaks.ends_clean hclean (0 + before.length) []
  rw [List.append_nil] at hnone
  have hends : lspBreaks.ends 0 (before ++ inner) = lspBreaks.ends 0 before := by
    rw [lspBreaks.ends_append hcut, hnone]
    exact List.append_nil _
  obtain ⟨-, hle, -⟩ := lspBreaks.clean_lastStart before 0
  rw [Nat.zero_add] at hle
  have hsame : lspBreaks.lastStart (before ++ inner) = lspBreaks.lastStart before := by
    rw [Breaks.lastStart, hends, Breaks.lastStart]
  rw [hsame]
  exact List.drop_append_of_le_length hle

/-- A range is answered iff no lone surrogate stands before its end on its line. -/
theorem lineSpan_isSome (text : Text) (lineno : Option Int) (subject : Option Text) :
    (∃ range, lineSpan text lineno subject = some range) ↔ Encodable text lineno subject := by
  unfold lineSpan Encodable
  cases hspan : span text lineno subject with
  | none => exact iff_of_true ⟨_, rfl⟩ fun _ h => nomatch h
  | some found =>
    obtain ⟨start, stop⟩ := found
    obtain ⟨before, inner, after, hbetween⟩ := span_between hspan
    have hcutInner : Cut before inner := by
      rintro ⟨hlast, hfirst⟩
      refine hbetween.cut ⟨hlast, ?_⟩
      rw [List.head?_append, hfirst]
      rfl
    have hline := lastStart_append hcutInner hbetween.clean
    have hstart := lspPosition_append before (inner ++ after)
    have hstop := lspPosition_append (before ++ inner) after
    rw [hline] at hstop
    rw [List.length_append, List.append_assoc, hbetween.stop, ← hbetween.split] at hstop
    rw [hbetween.start, ← hbetween.split] at hstart
    have htake : text.take stop = before ++ inner := by
      rw [hbetween.split, ← List.append_assoc, ← hbetween.stop, ← List.length_append,
        List.take_left]
    have hencodable : (∀ found ∈ some (start, stop),
        ∀ code ∈ (text.take found.2).drop (lspBreaks.lastStart (text.take found.2)),
          isSurrogate code = false) ↔
        (before.drop (lspBreaks.lastStart before) ++ inner).any isSurrogate = false := by
      rw [List.any_eq_false, ← hline, ← htake]
      constructor
      · intro h code hcode hsurrogate
        rw [h (start, stop) rfl code hcode] at hsurrogate
        cases hsurrogate
      · rintro h found hfound code hcode
        rw [← Option.some.inj hfound] at hcode
        exact Bool.eq_false_iff.mpr (h code hcode)
    rw [hencodable]
    dsimp only
    rw [hstart, hstop]
    cases hinner : (before.drop (lspBreaks.lastStart before) ++ inner).any isSurrogate with
    | true =>
      refine iff_of_false ?_ (fun h => nomatch h)
      rintro ⟨range, h⟩
      simp at h
    | false =>
      have hbefore : (before.drop (lspBreaks.lastStart before)).any isSurrogate = false := by
        rw [List.any_append, Bool.or_eq_false_iff] at hinner
        exact hinner.1
      rw [hbefore]
      exact iff_of_true ⟨_, rfl⟩ rfl

/-- **The range** that is answered covers what stands between the offsets. -/
theorem editorOffsets_lineSpan (hspan : span text lineno subject = some (start, stop))
    (h : lineSpan text lineno subject = some range) :
    editorOffsets text range = some (start, stop) := by
  obtain ⟨before, inner, after, hbetween⟩ := span_between hspan
  unfold lineSpan at h
  rw [hspan] at h
  dsimp only at h
  obtain ⟨first, hfirst, h⟩ := Option.bind_eq_some_iff.mp h
  obtain ⟨last, hlast, h⟩ := Option.bind_eq_some_iff.mp h
  rw [← Option.some.inj h]
  have hsplit : text = before ++ inner ++ after := by
    rw [hbetween.split, List.append_assoc]
  have hstart : editorOffset text first = some start := by
    rw [← hbetween.start, hbetween.split] at hfirst
    rw [← hbetween.start, hbetween.split]
    exact editorOffset_lspPosition hbetween.cut hfirst
  have hstop : editorOffset text last = some stop := by
    rw [← hbetween.stop, ← List.length_append, hsplit] at hlast
    rw [← hbetween.stop, ← List.length_append, hsplit]
    exact editorOffset_lspPosition hbetween.cut' hlast
  unfold editorOffsets
  rw [hstart, hstop]
  rfl

/-- A subject that is a token is found, at its first place. -/
theorem find_of_mem_split {subject : Text} (h : subject ∈ split body) :
    ∃ start, (wordsAt isWhite 0 body).find? (fun found => some found.2 = some subject) =
      some (start, subject) ∧ (start, subject) ∈ wordsAt isWhite 0 body := by
  rw [split, ← Lib.snd_wordsAt 0] at h
  obtain ⟨found, hmem, hsubject⟩ := List.mem_map.mp h
  cases hfind : (wordsAt isWhite 0 body).find? fun found => some found.2 = some subject with
  | none =>
    have hnone := List.find?_eq_none.mp hfind found hmem
    rw [hsubject] at hnone
    exact absurd (decide_eq_true rfl) hnone
  | some place =>
    have hplace := List.find?_some hfind
    have heq : place.2 = subject := Option.some.inj (of_decide_eq_true hplace)
    have hmem' := List.mem_of_find?_eq_some hfind
    obtain ⟨start, word⟩ := place
    obtain rfl : word = subject := heq
    exact ⟨start, rfl, hmem'⟩

/-- **The published range** covers the token that the diagnostic names. -/
theorem namesToken_lineSpan {lineno : Int} {subject : Text}
    (h : lineSpan text (some lineno) (some subject) = some range) :
    NamesToken text lineno subject range := by
  intro base body hbody hmem
  obtain ⟨start, hfind, hplace⟩ := find_of_mem_split hmem
  obtain ⟨before, after, htext, hbase, hclean, hcut⟩ := lineBody_split hbody
  obtain ⟨front, back, hsplit, hstart⟩ := Lib.split_of_mem_wordsAt hplace
  rw [Nat.zero_add] at hstart
  have hblank : strip body ≠ [] := by
    intro hblank
    rw [← Lib.PyText.split_strip, hblank, split, Lib.words_nil] at hmem
    cases hmem
  have hspan : span text (some lineno) (some subject) =
      some (base + front.length, base + front.length + subject.length) := by
    unfold span
    simp only [Option.bind_eq_bind, Option.bind_some, hbody, if_neg hblank, hfind, hstart]
  refine ⟨front, back, hsplit, hstart ▸ hplace, editorOffsets_lineSpan hspan h, ?_⟩
  have hwhole : text = before ++ front ++ (subject ++ (back ++ after)) := by
    rw [htext, hsplit]
    simp only [List.append_assoc]
  rw [← hbase, ← List.length_append, hwhole, ← List.length_append, ← List.append_assoc,
    List.take_left, List.drop_left]

end Lnpl.Lsp
