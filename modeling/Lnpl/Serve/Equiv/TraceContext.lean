import Lnpl.Serve.TraceContext

/-!
# Correctness of `parse_traceparent`

What is accepted are four valid fields with nothing or a dash behind them, whatever the version is.
So the grammar is met by every header but those of the version `00` that go on behind the fourth
field.
-/

namespace Lnpl.Serve.TraceContext

open Lib.JsonText (Text codes)

/-! ### Fields -/

/-- No hexadecimal field has a dash. -/
theorem dash_not_mem {value : Text} {length : Nat} (h : isLowerHex value length = true) :
    dash ∉ value := by
  intro hmem
  have hhex : hex.contains dash = true :=
    List.all_eq_true.mp (Bool.and_eq_true_iff.mp h).2 dash hmem
  exact absurd hhex (by decide)

variable {f : Fields} {raw : Text}

/-- The fields are what the dashes of the text separate. -/
theorem splitOn_text (h : f.Valid) :
    f.text.splitOn dash = [f.version, f.traceId, f.parentId, f.flags] := by
  unfold Fields.text
  rw [List.splitOn_append_cons_self_of_not_mem (dash_not_mem h.version),
    List.splitOn_append_cons_self_of_not_mem (dash_not_mem h.traceId),
    List.splitOn_append_cons_self_of_not_mem (dash_not_mem h.parentId),
    List.splitOn_eq_singleton (dash_not_mem h.flags)]

theorem splitOn_text_append (h : f.Valid) (more : Text) :
    (f.text ++ dash :: more).splitOn dash =
      [f.version, f.traceId, f.parentId, f.flags] ++ more.splitOn dash := by
  rw [List.splitOn_append_cons_self, splitOn_text h]

theorem text_ne_nil (f : Fields) (rest : Text) : f.text ++ rest ≠ [] := by
  intro h
  have htext := (List.append_eq_nil_iff.mp h).1
  exact List.cons_ne_nil _ _ (List.append_eq_nil_iff.mp htext).2

/-! ### Acceptance -/

/-- Valid fields in front are accepted, whatever stands behind them. -/
theorem parseTraceparent_of_splitOn {more : List Text} (hraw : raw ≠ []) (h : f.Valid)
    (hsplit : raw.splitOn dash = f.version :: f.traceId :: f.parentId :: f.flags :: more) :
    parseTraceparent raw = some f := by
  unfold parseTraceparent
  rw [if_neg hraw, hsplit]
  dsimp only
  rw [h.version, h.traceId, h.parentId, h.flags, if_neg h.notFf, if_neg h.traceNonzero,
    if_neg h.parentNonzero]
  rfl

/-- What is accepted is valid, and stands in front of the header. -/
theorem of_parseTraceparent (h : parseTraceparent raw = some f) :
    f.Valid ∧ ∃ more, raw.splitOn dash = f.version :: f.traceId :: f.parentId :: f.flags :: more := by
  unfold parseTraceparent at h
  by_cases hraw : raw = []
  · rw [if_pos hraw] at h
    cases h
  rw [if_neg hraw] at h
  match hsplit : raw.splitOn dash with
  | [] => rw [hsplit] at h; cases h
  | [_] => rw [hsplit] at h; cases h
  | [_, _] => rw [hsplit] at h; cases h
  | [_, _, _] => rw [hsplit] at h; cases h
  | version :: traceId :: parentId :: flags :: more =>
    rw [hsplit] at h
    dsimp only at h
    have hversion : isLowerHex version 2 = true := by
      by_contra hnot
      rw [Bool.of_not_eq_true hnot] at h
      cases h
    have htrace : isLowerHex traceId 32 = true := by
      by_contra hnot
      rw [hversion, Bool.of_not_eq_true hnot] at h
      cases h
    have hparent : isLowerHex parentId 16 = true := by
      by_contra hnot
      rw [hversion, htrace, Bool.of_not_eq_true hnot] at h
      cases h
    have hflags : isLowerHex flags 2 = true := by
      by_contra hnot
      rw [hversion, htrace, hparent, Bool.of_not_eq_true hnot] at h
      cases h
    rw [hversion, htrace, hparent, hflags] at h
    have hnotFf : version ≠ codes "ff" := by
      intro heq
      rw [if_pos heq] at h
      cases h
    have htraceNonzero : traceId ≠ zeros 32 := by
      intro heq
      rw [if_neg hnotFf, if_pos heq] at h
      cases h
    have hparentNonzero : parentId ≠ zeros 16 := by
      intro heq
      rw [if_neg hnotFf, if_neg htraceNonzero, if_pos heq] at h
      cases h
    rw [if_neg hnotFf, if_neg htraceNonzero, if_neg hparentNonzero] at h
    rw [← Option.some.inj h]
    exact ⟨⟨hversion, htrace, hparent, hflags, hnotFf, htraceNonzero, hparentNonzero⟩, more, rfl⟩

/-- **Acceptance**: the four fields, and then nothing or a dash. -/
theorem parseTraceparent_eq_some : parseTraceparent raw = some f ↔
    f.Valid ∧ (raw = f.text ∨ ∃ more, raw = f.text ++ dash :: more) := by
  constructor
  · intro h
    obtain ⟨hvalid, more, hsplit⟩ := of_parseTraceparent h
    have hjoined : [dash].intercalate (raw.splitOn dash) = raw := List.intercalate_splitOn dash
    rw [hsplit] at hjoined
    refine ⟨hvalid, ?_⟩
    cases more with
    | nil =>
      left
      rw [← hjoined]
      simp [Fields.text, List.intercalate]
    | cons field more =>
      right
      refine ⟨[dash].intercalate (field :: more), ?_⟩
      rw [← hjoined]
      simp [Fields.text, List.intercalate]
  · rintro ⟨hvalid, rfl | ⟨more, rfl⟩⟩
    · have hne := text_ne_nil f []
      rw [List.append_nil] at hne
      exact parseTraceparent_of_splitOn hne hvalid (splitOn_text hvalid)
    · exact parseTraceparent_of_splitOn (text_ne_nil f _) hvalid (splitOn_text_append hvalid more)

/-- What is formatted of accepted fields is accepted. -/
theorem parseTraceparent_format (h : f.Valid) (span : SpanId) :
    ∃ text, formatTraceparent f.traceId span.text f.flags = .ok text ∧
      parseTraceparent text = some ⟨codes "00", f.traceId, span.text, f.flags⟩ := by
  refine ⟨Fields.text ⟨codes "00", f.traceId, span.text, f.flags⟩, ?_, ?_⟩
  · unfold formatTraceparent
    rw [h.traceId, span.lowerHex, h.flags]
    rfl
  · rw [parseTraceparent_eq_some]
    have hversion : isLowerHex (codes "00") 2 = true := by decide
    have hnotFf : codes "00" ≠ codes "ff" := by decide
    exact ⟨⟨hversion, h.traceId, span.lowerHex, h.flags, hnotFf, h.traceNonzero, span.nonzero⟩,
      .inl rfl⟩

/-! ### The law -/

/-- **`traceparent`**: the grammar is met iff the header is not one of the version `00` that goes on
behind its fourth field. -/
theorem traceparentLaw_iff (raw : Text) : TraceparentLaw raw ↔ ¬ HasMoreFields raw := by
  constructor
  · rintro hlaw ⟨f, hvalid, hversion, more, hraw⟩
    have hparse : parseTraceparent raw = some f :=
      parseTraceparent_eq_some.mpr ⟨hvalid, .inr ⟨more, hraw⟩⟩
    obtain ⟨-, htext | ⟨hhigher, -⟩⟩ := (hlaw.accepts f).mp hparse
    · rw [htext] at hraw
      have hlength := congrArg List.length hraw
      rw [List.length_append, List.length_cons] at hlength
      omega
    · exact hhigher hversion
  · intro hnot
    constructor
    · intro f
      rw [parseTraceparent_eq_some]
      constructor
      · rintro ⟨hvalid, htext | ⟨more, hraw⟩⟩
        · exact ⟨hvalid, .inl htext⟩
        · refine ⟨hvalid, .inr ⟨fun hversion => ?_, more, hraw⟩⟩
          exact hnot ⟨f, hvalid, hversion, more, hraw⟩
      · rintro ⟨hvalid, htext | ⟨-, hmore⟩⟩
        · exact ⟨hvalid, .inl htext⟩
        · exact ⟨hvalid, .inr hmore⟩
    · intro f hparse span
      exact parseTraceparent_format (parseTraceparent_eq_some.mp hparse).1 span

/-- Five fields of the version `00`. -/
def fiveFields : Text :=
  codes "00-4bf92f3577b34da6a3ce929d0e0e4736-00f067aa0ba902b7-01-extra"

/-- Five fields of the version `00` are accepted. -/
theorem not_traceparentLaw_fiveFields : ¬ TraceparentLaw fiveFields := by
  intro hlaw
  have hparse : parseTraceparent fiveFields = some ⟨codes "00",
      codes "4bf92f3577b34da6a3ce929d0e0e4736", codes "00f067aa0ba902b7", codes "01"⟩ := by
    decide +kernel
  obtain ⟨-, htext | ⟨hhigher, -⟩⟩ := (hlaw.accepts _).mp hparse
  · exact absurd htext (by decide)
  · exact hhigher rfl

end Lnpl.Serve.TraceContext
